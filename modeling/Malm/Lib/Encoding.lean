/-
Malm.Lib.Encoding — encodings that end where they end.

An encoding is delimited when two encodings with anything behind them tell the values
apart; none is then a proper prefix of another one. Sequences, counted lists and images
under injections keep the property. Lengths take eight bytes, so it is claimed for values
that fit, or below a limit of the whole encoding (`Unambiguous`).
-/
import Malm.Lib.Bytes

namespace Bytes

open List

/-- An encoding whose end is visible, on the values that fit. -/
structure Delimited {α : Type} (fits : α → Prop) (encode : α → List UInt8) : Prop where
  ends : ∀ {a b rest rest'}, fits a → fits b → encode a ++ rest = encode b ++ rest' →
    a = b ∧ rest = rest'

/-- An encoding whose end is visible, for encodings shorter than `limit`. -/
structure Unambiguous {α : Type} (limit : Nat) (encode : α → List UInt8) : Prop where
  nonempty : ∀ a, encode a ≠ []
  ends : ∀ {a b rest rest'}, (encode a).length < limit → (encode b).length < limit →
    encode a ++ rest = encode b ++ rest' → a = b ∧ rest = rest'

def items {α : Type} (encode : α → List UInt8) (values : List α) : List UInt8 :=
  values.flatMap encode

@[simp] theorem items_nil {α : Type} (encode : α → List UInt8) : items encode [] = [] := rfl

@[simp] theorem items_cons {α : Type} (encode : α → List UInt8) (first : α) (rest : List α) :
    items encode (first :: rest) = encode first ++ items encode rest := rfl

/-- The encodings of a list with their number before them. -/
def counted {α : Type} (encode : α → List UInt8) (values : List α) : List UInt8 :=
  bigEndian 8 values.length ++ items encode values

variable {α β : Type} {limit : Nat} {encode : α → List UInt8} {snd : β → List UInt8}

theorem Unambiguous.number_ends {left right : Nat} {rest rest' : List UInt8}
    (hleft : left < 256 ^ 8) (hright : right < 256 ^ 8)
    (h : bigEndian 8 left ++ rest = bigEndian 8 right ++ rest') : left = right ∧ rest = rest' := by
  obtain ⟨hsame, hrest⟩ := append_inj h (by simp)
  have hvalue := congrArg ofBigEndian hsame
  rw [ofBigEndian_bigEndian hleft, ofBigEndian_bigEndian hright] at hvalue
  exact ⟨hvalue, hrest⟩

namespace Delimited

variable {fits : α → Prop} {fits' : β → Prop}

theorem of_isPrefix (h : Delimited fits encode) {a b : α} (ha : fits a) (hb : fits b)
    (hfront : encode a <+: encode b) : a = b := by
  obtain ⟨rest, hrest⟩ := hfront
  have happend : encode a ++ rest = encode b ++ [] := by rw [hrest, append_nil]
  exact (h.ends ha hb happend).1

theorem of_unambiguous (h : Unambiguous limit encode) :
    Delimited (fun a => (encode a).length < limit) encode :=
  ⟨h.ends⟩

theorem mono (h : Delimited fits encode) {fewer : α → Prop} (hfits : ∀ a, fewer a → fits a) :
    Delimited fewer encode :=
  ⟨fun {a b _ _} ha hb => h.ends (hfits a ha) (hfits b hb)⟩

theorem comap (h : Delimited fits encode) {f : β → α} (hf : Function.Injective f) :
    Delimited (fun b => fits (f b)) fun b => encode (f b) where
  ends := by
    intro a b rest rest' ha hb happend
    obtain ⟨hsame, hrest⟩ := h.ends ha hb happend
    exact ⟨hf hsame, hrest⟩

theorem fixed {width : Nat} (hlen : ∀ a, (encode a).length = width)
    (hinj : ∀ a b, fits a → fits b → encode a = encode b → a = b) :
    Delimited fits encode where
  ends := by
    intro a b rest rest' ha hb h
    obtain ⟨hsame, hrest⟩ := append_inj h ((hlen a).trans (hlen b).symm)
    exact ⟨hinj a b ha hb hsame, hrest⟩

theorem number : Delimited (· < 256 ^ 8) (bigEndian 8) :=
  ⟨Unambiguous.number_ends⟩

theorem text : Delimited (fun v => (utf8 v).length < 256 ^ 8)
    fun v => withLength (utf8 v) where
  ends := by
    intro a b rest rest' ha hb h
    obtain ⟨hsame, hrest⟩ := withLength_inj ha hb h
    exact ⟨utf8_injective hsame, hrest⟩

theorem seq (hfirst : Delimited fits encode) (hsecond : Delimited fits' snd) :
    Delimited (fun pair : α × β => fits pair.1 ∧ fits' pair.2)
      fun pair => encode pair.1 ++ snd pair.2 where
  ends := by
    intro a b rest rest' ha hb happend
    simp only [append_assoc] at happend
    obtain ⟨hleft, hbehind⟩ := hfirst.ends ha.1 hb.1 happend
    obtain ⟨hright, hrest⟩ := hsecond.ends ha.2 hb.2 hbehind
    exact ⟨Prod.ext hleft hright, hrest⟩

theorem items_ends (h : Delimited fits encode) :
    ∀ {left right : List α} {rest rest' : List UInt8}, left.length = right.length →
      (∀ a ∈ left, fits a) → (∀ a ∈ right, fits a) →
        items encode left ++ rest = items encode right ++ rest' → left = right ∧ rest = rest' := by
  intro left
  induction left with
  | nil =>
    intro right rest rest' hlen _ _ happend
    obtain rfl := length_eq_zero_iff.1 hlen.symm
    exact ⟨rfl, happend⟩
  | cons first others ih =>
    intro right rest rest' hlen hleft hright happend
    cases right with
    | nil => cases hlen
    | cons second' others' =>
      rw [forall_mem_cons] at hleft hright
      simp only [items_cons, append_assoc] at happend
      obtain ⟨rfl, hbehind⟩ := h.ends hleft.1 hright.1 happend
      obtain ⟨rfl, hrest⟩ := ih (Nat.succ.inj hlen) hleft.2 hright.2 hbehind
      exact ⟨rfl, hrest⟩

theorem counted (h : Delimited fits encode) :
    Delimited (fun vs => vs.length < 256 ^ 8 ∧ ∀ a ∈ vs, fits a)
      (counted encode) where
  ends := by
    intro left right rest rest' hleft hright happend
    simp only [Bytes.counted, append_assoc] at happend
    obtain ⟨hlen, hbehind⟩ := Unambiguous.number_ends hleft.1 hright.1 happend
    exact h.items_ends hlen hleft.2 hright.2 hbehind

end Delimited

namespace Unambiguous

open Delimited (of_unambiguous)

theorem of_isPrefix (h : Unambiguous limit encode) {a b : α} (ha : (encode a).length < limit)
    (hb : (encode b).length < limit) (hfront : encode a <+: encode b) : a = b :=
  (of_unambiguous h).of_isPrefix ha hb hfront

theorem fixed {width : Nat} (hwidth : 0 < width) (hlen : ∀ a, (encode a).length = width)
    (hinj : Function.Injective encode) : Unambiguous limit encode where
  nonempty := by
    intro a hempty
    have hzero := hlen a
    rw [hempty, length_nil] at hzero
    omega
  ends := by
    have hfixed : Delimited (fun _ => True) encode := .fixed hlen fun _ _ _ _ h => hinj h
    intro a b rest rest' _ _
    exact hfixed.ends trivial trivial

theorem withLength (hlimit : limit ≤ 256 ^ 8) : Unambiguous limit withLength where
  nonempty := by
    intro v hempty
    have hlen := withLength_length v
    rw [hempty, length_nil] at hlen
    omega
  ends := by
    intro left right rest rest' hleft hright h
    rw [withLength_length] at hleft hright
    exact withLength_inj (by omega) (by omega) h

theorem comap (h : Unambiguous limit encode) {f : β → α} (hf : Function.Injective f) :
    Unambiguous limit fun b => encode (f b) where
  nonempty b := h.nonempty (f b)
  ends := ((of_unambiguous h).comap hf).ends

theorem seq (hfirst : Unambiguous limit encode) (hsecond : Unambiguous limit snd) :
    Unambiguous limit fun pair : α × β => encode pair.1 ++ snd pair.2 where
  nonempty pair hempty := hfirst.nonempty pair.1 (append_eq_nil_iff.1 hempty).1
  ends := by
    intro a b rest rest' ha hb happend
    simp only [length_append] at ha hb
    exact ((of_unambiguous hfirst).seq (of_unambiguous hsecond)).ends ⟨by omega, by omega⟩
      ⟨by omega, by omega⟩ happend

theorem counted_fits (hne : ∀ a, encode a ≠ []) (vs : List α) :
    vs.length ≤ (items encode vs).length ∧
      ∀ a ∈ vs, (encode a).length ≤ (items encode vs).length := by
  induction vs with
  | nil => simp
  | cons first rest ih =>
    have hfirst := length_pos_iff.2 (hne first)
    simp only [items_cons, length_append, length_cons, forall_mem_cons]
    refine ⟨by omega, by omega, fun a ha => ?_⟩
    have hitem := ih.2 a ha
    omega

theorem counted (h : Unambiguous limit encode) (hlimit : limit ≤ 256 ^ 8) :
    Unambiguous limit (Bytes.counted encode) where
  nonempty := by
    intro vs hempty
    have hlen := congrArg List.length hempty
    simp [Bytes.counted] at hlen
  ends := by
    have hfits : ∀ vs, (Bytes.counted encode vs).length < limit →
        vs.length < 256 ^ 8 ∧ ∀ a ∈ vs, (encode a).length < limit := by
      intro vs hshort
      obtain ⟨hcount, hitems⟩ := counted_fits h.nonempty vs
      simp only [Bytes.counted, length_append, bigEndian_length] at hshort
      exact ⟨by omega, fun a ha => lt_of_le_of_lt (hitems a ha) (by omega)⟩
    intro left right rest rest' hleft hright
    exact (of_unambiguous h).counted.ends (hfits left hleft) (hfits right hright)

theorem text (hlimit : limit ≤ 256 ^ 8) :
    Unambiguous limit fun v => Bytes.withLength (utf8 v) :=
  (withLength hlimit).comap utf8_injective

end Unambiguous

end Bytes
