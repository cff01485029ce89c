/-
Malm.Authoring.TemplateTheorems — what a checked template renders to, and what a template
leaves as it is (`text.rs`).

The codecs are compared with the types by the shape of a value: what a type lowers to says
which constructors its values have. The scanner for the end of a directive runs along a
JSON string in step with the scanner of JSON strings.
-/
import Malm.Authoring.Templates
import Malm.Lib.StringLiterals

namespace Malm.Authoring

open Pack Transducer StringLiterals Checks List Option Except Ty

variable {formats : TextFormats} {meets : Ty → Value → Bool}

variable {input name out raw : Text} {types : Text → Option Ty}

/-! ## 1. Values by the shape of their type -/

/-- A boolean, a number, a string or a path. -/
def Value.isScalar : Value → Bool
  | bool _ | int _ | float _ | string _ | path _ => true
  | _ => false

/-- The values that a shape allows, as far as codecs tell them apart. -/
def LoweredType.Admits (meets : Ty → Value → Bool) : LoweredType → Value → Prop
  | bool, value => ∃ content, value = .bool content
  | int, value => ∃ content, value = .int content
  | float, value =>
    (∃ content, value = .float content) ∨
      ∃ content, value = .int content ∧ (exactI64ToF64 content).isSome = true
  | string, value => ∃ content, value = .string content
  | path, value => (∃ content, value = .path content) ∨ ∃ content, value = .string content
  | enum _, value => ∃ content, value = .string content
  | list (.homogeneous item), value =>
    ∃ items, value = .list items ∧ ∀ content ∈ items, item.accepts meets content = true
  | list (.tuple types), value =>
    ∃ items, value = .list items ∧ items.length = types.length ∧
      Ty.acceptsAll meets types items = true
  | _, _ => True

theorem admits_of_accepts : ∀ (ty : Ty) (value : Value), ty.accepts meets value = true →
    ty.loweredType.Admits meets value
  | .refine _ base _ _ _ _ _, value, h => by
    simp only [accepts, Bool.and_eq_true] at h
    exact admits_of_accepts base value h.1.2
  | .bool, value, h => by cases value <;> simp_all [accepts, loweredType, LoweredType.Admits]
  | .int, value, h => by cases value <;> simp_all [accepts, loweredType, LoweredType.Admits]
  | .float, value, h => by cases value <;> simp_all [accepts, loweredType, LoweredType.Admits]
  | .string, value, h => by
    cases value <;> simp_all [accepts, loweredType, LoweredType.Admits]
  | .path, value, h => by cases value <;> simp_all [accepts, loweredType, LoweredType.Admits]
  | .enum _, value, h => by
    cases value <;> simp_all [accepts, loweredType, LoweredType.Admits]
  | .list _, value, h => by
    cases value <;> simp_all [accepts, loweredType, LoweredType.Admits]
  | .set _, value, h => by cases value <;> simp_all [accepts, loweredType, LoweredType.Admits]
  | .tuple _, value, h => by
    cases value <;> simp_all [accepts, loweredType, LoweredType.Admits]
  | .record _, _, _ => trivial
  | .variant _ _, _, _ => trivial
  | .collection _, _, _ => trivial
  | .map _, _, _ => trivial
  | .kdlDocument, _, _ => trivial
  | .optional _, _, _ => trivial
  | .named _, _, _ => trivial

variable {value : Value} {items : List Value} {codec : Codec} {lookup : Text → Option Value}
  {segments : List Segment}

theorem isScalar_of_admits {lowered : LoweredType} (hscalar : lowered.isScalar = true)
    (h : lowered.Admits meets value) : value.isScalar = true := by
  cases lowered with
  | bool => obtain ⟨content, rfl⟩ := h; rfl
  | int => obtain ⟨content, rfl⟩ := h; rfl
  | float => obtain ⟨content, rfl⟩ | ⟨content, rfl, -⟩ := h <;> rfl
  | string => obtain ⟨content, rfl⟩ := h; rfl
  | path => obtain ⟨content, rfl⟩ | ⟨content, rfl⟩ := h <;> rfl
  | enum vs => obtain ⟨content, rfl⟩ := h; rfl
  | list _ => cases hscalar
  | record => cases hscalar
  | collection _ => cases hscalar
  | kdlDocument => cases hscalar
  | optional => cases hscalar
  | named => cases hscalar

theorem isScalar_of_accepts {ty : Ty} (hscalar : ty.loweredType.isScalar = true)
    (h : ty.accepts meets value = true) : value.isScalar = true :=
  isScalar_of_admits hscalar (admits_of_accepts ty value h)

/-! ## 2. Codecs -/

theorem tomlScalar_of_isScalar (h : value.isScalar = true) :
    ∃ text, tomlScalar formats value = .ok text := by
  cases value <;> first | exact ⟨_, rfl⟩ | cases h

theorem mapM_tomlScalar (h : ∀ item ∈ items, item.isScalar = true) :
    ∃ texts, items.mapM (tomlScalar formats) = .ok texts := by
  induction items with
  | nil => exact ⟨[], rfl⟩
  | cons first rest ih =>
    obtain ⟨text, htext⟩ : ∃ text, tomlScalar formats first = .ok text :=
      tomlScalar_of_isScalar (h first (by simp))
    obtain ⟨texts, htexts⟩ := ih fun item hitem => h item (by simp [hitem])
    exact ⟨text :: texts, by simp [htext, htexts, pure, Except.pure, bind, Except.bind]⟩

theorem encode_of_isScalar (h : value.isScalar = true)
    (hcodec : codec ∈ [.tomlString, .json, .shellWord, .lua, .raw, .auto]) :
    ∃ text, codec.encode formats value = .ok text := by
  simp only [mem_cons, not_mem_nil, or_false] at hcodec
  obtain rfl | rfl | rfl | rfl | rfl | rfl := hcodec <;> cases value <;>
    first | exact ⟨_, rfl⟩ | cases h

/-- An integer that the `float` codec refuses. -/
def Inexact (codec : Codec) (value : Value) : Prop :=
  codec = .float ∧ ∃ content, value = .int content ∧ exactI64ToF64 content = none

theorem encode_array (h : ∀ item ∈ items, item.isScalar = true) :
    ∃ text, Codec.encode formats .tomlArray (.list items) = .ok text := by
  obtain ⟨texts, htexts⟩ : ∃ texts, items.mapM (tomlScalar formats) = .ok texts :=
    mapM_tomlScalar h
  exact ⟨_, by simp only [Codec.encode, Value.isNull, Bool.false_eq_true, if_false, htexts]; rfl⟩

theorem isScalar_of_acceptsAll {types : List Ty} (hlen : items.length = types.length)
    (htypes : types.all Codec.isTomlScalarType = true)
    (h : acceptsAll meets types items = true) : ∀ item ∈ items, item.isScalar = true := by
  induction types generalizing items with
  | nil =>
    obtain rfl := length_eq_zero_iff.mp hlen
    simp
  | cons ty types ih =>
    cases items with
    | nil => simp
    | cons item items =>
      simp only [acceptsAll, all_cons, Bool.and_eq_true] at h htypes
      intro other hother
      obtain rfl | hmem := mem_cons.mp hother
      · exact isScalar_of_accepts htypes.1 h.1
      · exact ih (by simpa using hlen) htypes.2 h.2 other hmem

/-- **What the checker accepts, the encoder writes**, but for inexact integers. -/
theorem encode_iff {ty : Ty} (hcodec : codec.acceptsType ty = true)
    (hvalue : ty.accepts meets value = true) :
    (∃ text, codec.encode formats value = .ok text) ↔ ¬ Inexact codec value := by
  have hadmits := admits_of_accepts ty value hvalue
  simp only [Codec.acceptsType, Bool.and_eq_true] at hcodec
  obtain ⟨-, hcodec⟩ := hcodec
  generalize ty.loweredType = lowered at hcodec hadmits
  -- The codecs that take every scalar.
  have hscalars : codec ∈ [.tomlString, .json, .shellWord, .lua, .raw, .auto] →
      lowered.isScalar = true →
        ((∃ text, codec.encode formats value = .ok text) ↔ ¬ Inexact codec value) := by
    intro hmem hscalar
    refine iff_of_true (encode_of_isScalar (isScalar_of_admits hscalar hadmits) hmem) ?_
    intro hinexact
    rw [hinexact.1] at hmem
    exact absurd hmem (by decide)
  cases codec with
  | text =>
    have htext : (∃ content, value = .string content) ∨ ∃ content, value = .path content := by
      cases lowered <;> 
        first | exact .inl hadmits | exact hadmits.symm | cases hcodec
    obtain ⟨content, rfl⟩ | ⟨content, rfl⟩ := htext
    · exact iff_of_true ⟨_, rfl⟩ (by simp [Inexact])
    · exact iff_of_true ⟨_, rfl⟩ (by simp [Inexact])
  | int =>
    obtain ⟨content, rfl⟩ : ∃ content, value = .int content := by
      cases lowered <;> first | exact hadmits | cases hcodec
    exact iff_of_true ⟨_, rfl⟩ (by simp [Inexact])
  | bool =>
    obtain ⟨content, rfl⟩ : ∃ content, value = .bool content := by
      cases lowered <;> first | exact hadmits | cases hcodec
    exact iff_of_true ⟨_, rfl⟩ (by simp [Inexact])
  | float =>
    have hnumber : (∃ content, value = .float content) ∨ ∃ content, value = .int content := by
      cases lowered <;>
        first
        | exact .inr hadmits
        | exact hadmits.imp id fun ⟨content, hvalue, _⟩ => ⟨content, hvalue⟩
        | cases hcodec
    obtain ⟨content, rfl⟩ | ⟨content, rfl⟩ := hnumber
    · exact iff_of_true ⟨_, rfl⟩ (by simp [Inexact])
    · cases hexact : exactI64ToF64 content with
      | some converted =>
        refine iff_of_true ⟨formats.formatFloat converted, ?_⟩ (by simp [Inexact, hexact])
        simp [Codec.encode, Value.isNull, hexact]
      | none =>
        exact iff_of_false (by simp [Codec.encode, Value.isNull, hexact])
          (by simp [Inexact, hexact])
  | tomlArray =>
    obtain ⟨items, rfl, hitems⟩ :
        ∃ items, value = .list items ∧ ∀ item ∈ items, item.isScalar = true := by
      cases lowered with
      | list e =>
        cases e with
        | homogeneous item =>
          obtain ⟨items, rfl, hitems⟩ := hadmits
          exact ⟨items, rfl, fun content hcontent =>
            isScalar_of_accepts hcodec (hitems content hcontent)⟩
        | tuple types =>
          obtain ⟨items, rfl, hlen, hall⟩ := hadmits
          exact ⟨items, rfl, isScalar_of_acceptsAll hlen hcodec hall⟩
      | _ => cases hcodec
    exact iff_of_true (encode_array hitems) (by simp [Inexact])
  | tomlString => exact hscalars (by simp) hcodec
  | json => exact hscalars (by simp) hcodec
  | shellWord => exact hscalars (by simp) hcodec
  | lua => exact hscalars (by simp) hcodec
  | raw => exact hscalars (by simp) hcodec
  | auto => exact hscalars (by simp) hcodec

/-! ## 3. Rendering -/

theorem foldlM_renderSegment {maxBytes : Nat} {texts : List Text}
    (h : segments.mapM (segmentText formats lookup) = .ok texts)
    (hbudget : Text.byteLen (out ++ texts.flatten) ≤ maxBytes) :
    segments.foldlM (renderSegment formats lookup maxBytes) out = .ok (out ++ texts.flatten) := by
  induction segments generalizing texts out with
  | nil =>
    obtain rfl : [] = texts := by simpa [pure, Except.pure] using h
    simp [pure, Except.pure]
  | cons seg rest ih =>
    simp only [mapM_cons, bind_ok, pure_ok] at h
    obtain ⟨text, htext, others, hothers, rfl⟩ := h
    have hlen : ¬ maxBytes < Text.byteLen out + Text.byteLen text := by
      simp only [flatten_cons, Text.byteLen_append] at hbudget
      omega
    have hsegment : renderSegment formats lookup maxBytes out seg = .ok (out ++ text) := by
      simp [renderSegment, htext, appendWithLimit, hlen, bind, Except.bind]
    have hbyte : Text.byteLen (out ++ text ++ others.flatten) ≤ maxBytes := by simpa using hbudget
    rw [foldlM_cons, hsegment]
    simpa [bind, Except.bind] using ih hothers hbyte

theorem segmentText_of_foldlM {maxBytes : Nat} {r : Text}
    (h : segments.foldlM (renderSegment formats lookup maxBytes) out = .ok r) :
    ∀ seg ∈ segments, ∃ text, segmentText formats lookup seg = .ok text := by
  induction segments generalizing out with
  | nil => simp
  | cons first rest ih =>
    simp only [foldlM_cons, bind_ok, renderSegment] at h
    obtain ⟨middle, ⟨text, htext, -⟩, hrest⟩ := h
    intro seg hsegment
    obtain rfl | hmem := mem_cons.mp hsegment
    · exact ⟨text, htext⟩
    · exact ih hrest seg hmem

theorem mapM_segmentText
    (h : ∀ seg ∈ segments, ∃ text, segmentText formats lookup seg = .ok text) :
    ∃ texts, segments.mapM (segmentText formats lookup) = .ok texts := by
  induction segments with
  | nil => exact ⟨[], rfl⟩
  | cons first rest ih =>
    obtain ⟨text, htext⟩ := h first (by simp)
    obtain ⟨texts, htexts⟩ := ih fun seg hsegment => h seg (by simp [hsegment])
    exact ⟨text :: texts, by simp [htext, htexts, pure, Except.pure, bind, Except.bind]⟩

/-- **When a template renders**: exactly when each segment has a text, in every budget that holds
the output. -/
theorem render_iff (hparse : parseTemplateWith formats input = .ok segments) :
    (∃ output, ∀ maxBytes, Text.byteLen output ≤ maxBytes →
        renderTemplateWithLimit formats input lookup maxBytes = .ok output) ↔
      ∀ seg ∈ segments, ∃ text, segmentText formats lookup seg = .ok text := by
  constructor
  · intro h
    obtain ⟨output, houtput⟩ := h
    have hrender := houtput _ le_rfl
    rw [renderTemplateWithLimit, hparse] at hrender
    exact segmentText_of_foldlM hrender
  · intro h
    obtain ⟨texts, htexts⟩ := mapM_segmentText h
    refine ⟨texts.flatten, ?_⟩
    intro maxBytes hbudget
    rw [renderTemplateWithLimit, hparse]
    have hbyte : Text.byteLen ([] ++ texts.flatten) ≤ maxBytes := hbudget
    exact foldlM_renderSegment htexts hbyte

/-! ## 4. Checked templates -/

/-- Each name of the type environment has a value of its type. -/
def Inhabits (meets : Ty → Value → Bool) (types : Text → Option Ty)
    (values : Text → Option Value) : Prop :=
  ∀ name ty, types name = some ty →
    ∃ value, values name = some value ∧ ty.accepts meets value = true

/-- Each integer that a template writes with the `float` codec is one of the floats. -/
def FloatsExact (formats : TextFormats) (input : Text) (values : Text → Option Value) : Prop :=
  ∀ segments, parseTemplateWith formats input = .ok segments →
    ∀ raw name content, .directive raw (.substitute .float name) ∈ segments →
      values name = some (.int content) → (exactI64ToF64 content).isSome = true

theorem checkTemplate_eq_nil (h : checkTemplateWithV3 formats input types = []) :
    ∃ segments, parseTemplateWith formats input = .ok segments ∧
      ∀ seg ∈ segments, checkSegment types seg = [] := by
  unfold checkTemplateWithV3 at h
  cases hparse : parseTemplateWith formats input with
  | error message => simp [hparse] at h
  | ok segments =>
    rw [hparse] at h
    exact ⟨segments, rfl, fun seg hsegment => flatMap_eq_nil_iff.mp h seg hsegment⟩

theorem checkSegment_eq_nil
    (h : checkSegment types (.directive raw (.substitute codec name)) = []) :
    ∃ ty, types name = some ty ∧ codec.acceptsType ty = true := by
  unfold checkSegment at h
  cases hlookup : types name with
  | none => simp [hlookup] at h
  | some ty =>
    refine ⟨ty, rfl, ?_⟩
    by_contra hcodec
    simp [hlookup, hcodec] at h

theorem segmentText_substitute {vs : Text → Option Value} (hvalue : vs name = some value) :
    (∃ text, segmentText formats vs (.directive raw (.substitute codec name)) = .ok text) ↔
      ∃ text, codec.encode formats value = .ok text := by
  simp only [segmentText, hvalue, bind_ok, require_ok, mapError_ok]
  simp

/-- **Checked templates render**, exactly when they write no integer as a float that is
none. -/
theorem checked_template_renders {types : Text → Option Ty} {values : Text → Option Value}
    {input : Text} (hcheck : checkTemplateWithV3 formats input types = [])
    (hvalues : Inhabits meets types values) :
    (∃ output, ∀ maxBytes, Text.byteLen output ≤ maxBytes →
        renderTemplateWithLimit formats input values maxBytes = .ok output) ↔
      FloatsExact formats input values := by
  obtain ⟨segments, hparse, hsegments⟩ := checkTemplate_eq_nil hcheck
  rw [render_iff hparse]
  -- Each substitution has a value, which its codec writes unless it is inexact.
  have hsubstitute : ∀ raw codec name, .directive raw (.substitute codec name) ∈ segments →
      ∃ value, values name = some value ∧
        ((∃ text, segmentText formats values (.directive raw (.substitute codec name)) = .ok text) ↔
          ¬ Inexact codec value) := by
    intro raw codec name hmem
    obtain ⟨ty, hty, hcodec⟩ := checkSegment_eq_nil (hsegments _ hmem)
    obtain ⟨value, hvalue, haccepts⟩ := hvalues name ty hty
    exact ⟨value, hvalue, (segmentText_substitute hvalue).trans (encode_iff hcodec haccepts)⟩
  constructor
  · intro h others hothers raw name content hmem hvalue
    obtain rfl : segments = others := ok.inj (hparse.symm.trans hothers)
    obtain ⟨value, hfound, hiff⟩ := hsubstitute raw .float name hmem
    obtain rfl : value = .int content := some.inj (hfound.symm.trans hvalue)
    have hexact := hiff.mp (h _ hmem)
    by_contra hnone
    exact hexact ⟨rfl, content, rfl, by simpa using hnone⟩
  · intro hexact segment hsegment
    cases segment with
    | text text => exact ⟨text, rfl⟩
    | directive raw parsed =>
      cases parsed with
      | literal text => exact ⟨text, rfl⟩
      | substitute codec name =>
        obtain ⟨value, hfound, hiff⟩ := hsubstitute raw codec name hsegment
        refine hiff.mpr ?_
        intro hinexact
        obtain ⟨rfl, content, rfl, hnone⟩ := hinexact
        have hsome := hexact segments hparse raw name content hsegment hfound
        simp [hnone] at hsome

/-- `serde_json` on one string, and no floats. -/
def stringFormats : TextFormats where
  formatFloat _ := []
  jsonString := Json.quote
  jsonFloat _ := []
  parseJsonString argument :=
    match readJson argument with
    | some (text, []) => some text
    | _ => none

def oneName {α : Type} (value : α) (name : Text) : Option α :=
  if name = ['x'] then some value else none

theorem inhabits_oneName {ty : Ty} (h : ty.accepts meets value = true) :
    Inhabits meets (oneName ty) (oneName value) := by
  intro name other hname
  unfold oneName at hname
  split at hname
  · next heq =>
    obtain rfl := some.inj hname
    exact ⟨value, by rw [oneName, if_pos heq], h⟩
  · cases hname

/-- A list of strings in a TOML array renders. -/
theorem checked_template_renders_array :
    ∃ output, ∀ maxBytes, Text.byteLen output ≤ maxBytes →
      renderTemplateWithLimit stringFormats "a = \x7b\x7bx:toml-array\x7d\x7d".toList
        (oneName (.list [.string "b", .string "c"])) maxBytes = .ok output := by
  refine (@checked_template_renders stringFormats (fun _ _ => true) (oneName (.list .string))
    (oneName (.list [.string "b", .string "c"])) "a = \x7b\x7bx:toml-array\x7d\x7d".toList rfl
    (inhabits_oneName rfl)).mpr ?_
  intro segments hsegments raw name content hmem
  have hparse : parseTemplateWith stringFormats "a = \x7b\x7bx:toml-array\x7d\x7d".toList =
      .ok [.text "a = ".toList, .directive "x:toml-array".toList (.substitute .tomlArray ['x'])] :=
    rfl
  obtain rfl := ok.inj (hparse.symm.trans hsegments)
  simp at hmem

/-- The integer above 2^53 passes as a float, and no float is that integer. -/
theorem checked_template_can_fail :
    ¬ ∀ (formats : TextFormats) (meets : Ty → Value → Bool) (types : Text → Option Ty)
        (values : Text → Option Value) (input : Text),
        checkTemplateWithV3 formats input types = [] → Inhabits meets types values →
          ∃ output, ∀ maxBytes, Text.byteLen output ≤ maxBytes →
            renderTemplateWithLimit formats input values maxBytes = .ok output := by
  intro h
  have hrender := h stringFormats (fun _ _ => true) (oneName .int)
    (oneName (.int 9007199254740993)) "\x7b\x7bx:float\x7d\x7d".toList rfl (inhabits_oneName rfl)
  have hparse : parseTemplateWith stringFormats "\x7b\x7bx:float\x7d\x7d".toList =
      .ok [.directive "x:float".toList (.substitute .float ['x'])] := rfl
  obtain ⟨text, htext⟩ := (render_iff hparse).mp hrender _ (mem_singleton.mpr rfl)
  have herror : (segmentText stringFormats (oneName (.int 9007199254740993))
      (.directive "x:float".toList (.substitute .float ['x']))).isOk = false := rfl
  rw [htext] at herror
  cases herror

end Malm.Authoring
