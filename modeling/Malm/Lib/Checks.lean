/-
Malm.Lib.Checks — when a chain of fail-closed checks succeeds.

A check is an `Except ε`; a validator is a `do` block of checks. The
lemmas read the success of a block off its parts, so that a proof about a
validator never follows its error branches.
-/
import Mathlib

namespace Checks

open List

variable {ε α β : Type}

variable {found : Option α}

theorem ok_bind (a : α) (f : α → Except ε β) : (.ok a >>= f) = f a := rfl

theorem error_bind (e : ε) (f : α → Except ε β) : (.error e >>= f) = .error e := rfl

theorem pure_eq (a : α) : (pure a : Except ε α) = .ok a := rfl

variable {x : Except ε α} {f : α → Except ε β} {a : α} {R : α → β → Prop}

theorem bind_ok {b : β} : (x >>= f) = .ok b ↔ ∃ a, x = .ok a ∧ f a = .ok b := by
  cases x with
  | error e =>
    constructor
    · intro h
      cases h
    · rintro ⟨a, h, -⟩
      cases h
  | ok a =>
    constructor
    · intro h
      exact ⟨a, rfl, h⟩
    · rintro ⟨a', ha, h⟩
      cases ha
      exact h

theorem bind_unit_ok {x : Except ε Unit} {f : Unit → Except ε β} {b : β} :
    (x >>= f) = .ok b ↔ x = .ok () ∧ f () = .ok b := by
  rw [bind_ok]
  constructor
  · rintro ⟨⟨⟩, hx, hf⟩
    exact ⟨hx, hf⟩
  · rintro ⟨hx, hf⟩
    exact ⟨(), hx, hf⟩

theorem exists_unit {p : Unit → Prop} : (∃ v, p v) ↔ p () :=
  ⟨fun ⟨_, h⟩ => h, fun h => ⟨(), h⟩⟩

theorem pure_ok {b : α} : (pure a : Except ε α) = .ok b ↔ a = b := by
  constructor
  · intro h
    cases h
    rfl
  · rintro rfl
    rfl

theorem toOption_eq_some : x.toOption = some a ↔ x = .ok a := by
  cases x <;> simp [Except.toOption]

theorem toBool_eq_true : x.toBool = true ↔ ∃ a, x = .ok a := by
  cases x <;> simp [Except.toBool]

theorem mapError_ok {ε' : Type} {f : ε → ε'} : x.mapError f = .ok a ↔ x = .ok a := by
  cases x <;> simp [Except.mapError]

def reject (c : Prop) [Decidable c] (e : ε) : Except ε Unit :=
  if c then .error e else .ok ()

theorem reject_ok {c : Prop} [Decidable c] {e : ε} : reject c e = .ok () ↔ ¬ c := by
  by_cases h : c <;> simp [reject, h]

/-- A guard on an optional finding: `if let Some(x) = found { return Err(…) }`. -/
def rejectSome (found : Option α) (e : α → ε) : Except ε Unit :=
  match found with
  | some a => .error (e a)
  | none => .ok ()

theorem rejectSome_ok {e : α → ε} :
    rejectSome found e = .ok () ↔ found = none := by
  cases found <;> simp [rejectSome]

/-- A check of an optional value: `if let Some(x) = value { f(x)? }`. -/
def whenSome (value : Option α) (f : α → Except ε Unit) : Except ε Unit :=
  match value with
  | some a => f a
  | none => .ok ()

theorem whenSome_ok {v : Option α} {f : α → Except ε Unit} :
    whenSome v f = .ok () ↔ ∀ a, v = some a → f a = .ok () := by
  cases v <;> simp [whenSome]

def when (c : Prop) [Decidable c] (x : Except ε Unit) : Except ε Unit :=
  if c then x else .ok ()

theorem when_ok {c : Prop} [Decidable c] {x : Except ε Unit} :
    when c x = .ok () ↔ (c → x = .ok ()) := by
  by_cases h : c <;> simp [when, h]

def require (found : Option α) (e : ε) : Except ε α :=
  match found with
  | some a => .ok a
  | none => .error e

theorem require_ok {e : ε} : require found e = .ok a ↔ found = some a := by
  cases found <;> simp [require]

theorem forM_ok {f : α → Except ε Unit} :
    ∀ {xs : List α}, xs.forM f = .ok () ↔ ∀ x ∈ xs, f x = .ok ()
  | [] => by simp [pure_ok]
  | x :: xs => by
    have hcons : (x :: xs).forM f = (f x >>= fun _ => xs.forM f) := rfl
    rw [hcons, bind_unit_ok, forM_ok]
    simp

theorem foldlM_ok_of_mem {f : β → α → Except ε β} :
    ∀ {xs : List α} {start r : β}, xs.foldlM f start = .ok r → a ∈ xs →
      ∃ before after, f before a = .ok after
  | x :: xs, start, r, h, hmem => by
    rw [foldlM_cons, bind_ok] at h
    obtain ⟨mid, hx, hxs⟩ := h
    rcases mem_cons.1 hmem with rfl | hmem
    · exact ⟨start, mid, hx⟩
    · exact foldlM_ok_of_mem hxs hmem

theorem foldlM_ok_imp {f g : β → α → Except ε β} :
    ∀ {xs : List α} {start r : β},
      (∀ x ∈ xs, ∀ before after, f before x = .ok after → g before x = .ok after) →
      xs.foldlM f start = .ok r → xs.foldlM g start = .ok r
  | [], _, _, _, h => h
  | x :: xs, start, r, himp, h => by
    rw [foldlM_cons, bind_ok] at h ⊢
    obtain ⟨mid, hx, hxs⟩ := h
    exact ⟨mid, himp x mem_cons_self _ _ hx,
      foldlM_ok_imp (fun y hy => himp y (mem_cons_of_mem _ hy)) hxs⟩

theorem foldlM_preserves {f : β → α → Except ε β} {P : β → Prop} :
    ∀ {xs : List α} {start r : β}, xs.foldlM f start = .ok r →
      (∀ x ∈ xs, ∀ before after, P before → f before x = .ok after → P after) →
      P start → P r
  | [], _, _, h, _, hstart => by
    cases h
    exact hstart
  | x :: xs, start, r, h, hstep, hstart => by
    rw [foldlM_cons, bind_ok] at h
    obtain ⟨mid, hx, hxs⟩ := h
    have hmiddle := hstep x mem_cons_self start mid hstart hx
    exact foldlM_preserves hxs (fun y hy => hstep y (mem_cons_of_mem _ hy)) hmiddle

theorem foldlM_congr {f g : β → α → Except ε β} :
    ∀ {xs : List α}, (∀ x ∈ xs, ∀ before, f before x = g before x) →
      ∀ {start : β}, xs.foldlM f start = xs.foldlM g start
  | [], _, _ => rfl
  | x :: xs, h, start => by
    rw [foldlM_cons, foldlM_cons, h x mem_cons_self]
    refine congrArg (g start x >>= ·) (funext fun mid => ?_)
    exact foldlM_congr fun y hy => h y (mem_cons_of_mem _ hy)

theorem forM_congr {f g : α → Except ε Unit} :
    ∀ {items : List α}, (∀ item ∈ items, f item = g item) → items.forM f = items.forM g
  | [], _ => rfl
  | item :: rest, h => by
    have hcons : ∀ body : α → Except ε Unit,
        (item :: rest).forM body = (body item >>= fun _ => rest.forM body) := fun _ => rfl
    rw [hcons, hcons, h item mem_cons_self,
      forM_congr fun item' hitem => h item' (mem_cons_of_mem _ hitem)]

theorem mapM_congr {g : α → Except ε β} :
    ∀ {xs : List α}, (∀ x ∈ xs, f x = g x) → xs.mapM f = xs.mapM g
  | [], _ => rfl
  | x :: xs, h => by
    rw [mapM_cons, mapM_cons, h x mem_cons_self, mapM_congr fun y hy => h y (mem_cons_of_mem _ hy)]

theorem mapM_ok_of_mem :
    ∀ {xs : List α} {ys : List β}, xs.mapM f = .ok ys → ∀ {x : α}, x ∈ xs → ∃ y, f x = .ok y
  | first :: rest, ys, h, x, hx => by
    rw [mapM_cons, bind_ok] at h
    obtain ⟨v, hfirst, h⟩ := h
    rw [bind_ok] at h
    obtain ⟨vs, hrest, -⟩ := h
    rcases mem_cons.1 hx with rfl | hx
    · exact ⟨v, hfirst⟩
    · exact mapM_ok_of_mem hrest hx

theorem exists_mapM_ok :
    ∀ {xs : List α}, (∀ x ∈ xs, ∃ y, f x = .ok y) → ∃ ys, xs.mapM f = .ok ys
  | [], _ => ⟨[], rfl⟩
  | first :: rest, h => by
    obtain ⟨v, hfirst⟩ := h first mem_cons_self
    obtain ⟨vs, hrest⟩ := exists_mapM_ok fun x hx => h x (mem_cons_of_mem first hx)
    exact ⟨v :: vs, by rw [mapM_cons, hfirst, ok_bind, hrest]; rfl⟩

theorem map_of_mapM_ok {γ : Type} {g : α → γ} {h : β → γ} :
    ∀ {xs : List α} {ys : List β}, xs.mapM f = .ok ys →
      (∀ x ∈ xs, ∀ y, f x = .ok y → h y = g x) → ys.map h = xs.map g
  | [], ys, hmap, _ => by
    rw [mapM_nil, pure_ok] at hmap
    rw [← hmap]
    rfl
  | first :: rest, ys, hmap, hvalue => by
    rw [mapM_cons, bind_ok] at hmap
    obtain ⟨v, hfirst, hmap⟩ := hmap
    rw [bind_ok] at hmap
    obtain ⟨vs, hrest, hys⟩ := hmap
    rw [pure_ok] at hys
    rw [← hys, map_cons, map_cons, hvalue first mem_cons_self v hfirst,
      map_of_mapM_ok hrest fun x hx => hvalue x (mem_cons_of_mem first hx)]

theorem mapM_eq_map_of_ok {g : α → β} :
    ∀ {xs : List α} {ys : List β}, xs.mapM f = .ok ys → (∀ x y, f x = .ok y → y = g x) →
      ys = xs.map g
  | [], ys, h, _ => by
    rw [mapM_nil, pure_ok] at h
    exact h.symm
  | first :: rest, ys, h, hg => by
    rw [mapM_cons, bind_ok] at h
    obtain ⟨v, hfirst, h⟩ := h
    rw [bind_ok] at h
    obtain ⟨vs, hrest, hys⟩ := h
    rw [pure_ok] at hys
    rw [← hys, map_cons, hg first v hfirst, mapM_eq_map_of_ok hrest hg]

theorem mapM_forall₂ :
    ∀ {xs : List α} {ys : List β}, xs.mapM f = .ok ys →
      List.Forall₂ (fun x y => f x = .ok y) xs ys
  | [], ys, h => by
    rw [mapM_nil, pure_ok] at h
    exact h ▸ .nil
  | first :: rest, ys, h => by
    rw [mapM_cons, bind_ok] at h
    obtain ⟨v, hfirst, h⟩ := h
    rw [bind_ok] at h
    obtain ⟨vs, hrest, hys⟩ := h
    rw [pure_ok] at hys
    exact hys ▸ .cons hfirst (mapM_forall₂ hrest)

theorem forall₂_comp {γ : Type} {S : β → γ → Prop} :
    ∀ {xs : List α} {ys : List β} {zs : List γ}, List.Forall₂ R xs ys → List.Forall₂ S ys zs →
      List.Forall₂ (fun x z => ∃ y, R x y ∧ S y z) xs zs
  | _, _, _, .nil, .nil => .nil
  | _, _, _, .cons hxy hleft, .cons hyz hright =>
    .cons ⟨_, hxy, hyz⟩ (forall₂_comp hleft hright)

theorem exists_left_of_forall₂ {xs : List α} {ys : List β} (h : List.Forall₂ R xs ys) {y : β}
    (hy : y ∈ ys) : ∃ x ∈ xs, R x y := by
  induction h with
  | nil => cases hy
  | cons hfirst _ ih =>
    rcases mem_cons.1 hy with rfl | hrest
    · exact ⟨_, mem_cons_self, hfirst⟩
    · obtain ⟨x, hx, hxy⟩ := ih hrest
      exact ⟨x, mem_cons_of_mem _ hx, hxy⟩

theorem exists_right_of_forall₂ {xs : List α} {ys : List β} (h : List.Forall₂ R xs ys) {x : α}
    (hx : x ∈ xs) : ∃ y ∈ ys, R x y := by
  obtain ⟨y, hy, hxy⟩ := exists_left_of_forall₂ h.flip hx
  exact ⟨y, hy, hxy⟩

/-- Success with a value that passes a test, as a computable answer. -/
def okAnd (x : Except ε α) (test : α → Bool) : Bool :=
  match x with
  | .ok a => test a
  | .error _ => false

theorem okAnd_iff {test : α → Bool} : okAnd x test = true ↔ ∃ a, x = .ok a ∧ test a = true := by
  cases x <;> simp [okAnd]

/-! ## Checks that differ in their errors only -/

def SameOk {ε ε' : Type} (x : Except ε α) (y : Except ε' α) : Prop :=
  ∀ a, x = .ok a ↔ y = .ok a

section SameOk

variable {ε' : Type}

theorem SameOk.refl (x : Except ε α) : SameOk x x := fun _ => Iff.rfl

theorem SameOk.bind {y : Except ε' α} {g : α → Except ε' β} (hxy : SameOk x y)
    (hfg : ∀ a, SameOk (f a) (g a)) :
    SameOk (x >>= f) (y >>= g) := by
  intro b
  rw [bind_ok, bind_ok]
  exact exists_congr fun a => and_congr (hxy a) (hfg a b)

theorem SameOk.reject {c : Prop} [Decidable c] {e : ε} {e' : ε'} :
    SameOk (reject c e) (reject c e') := by
  rintro ⟨⟩
  rw [reject_ok, reject_ok]

theorem SameOk.require {e : ε} {e' : ε'} :
    SameOk (Checks.require found e) (Checks.require found e') := by
  intro a
  rw [require_ok, require_ok]

theorem SameOk.ite {c : Prop} [Decidable c] {x' : Except ε α} {y y' : Except ε' α}
    (hx : SameOk x y) (hx' : SameOk x' y') :
    SameOk (if c then x else x') (if c then y else y') := by
  split
  · exact hx
  · exact hx'

theorem SameOk.error {e : ε} {e' : ε'} :
    SameOk (.error e : Except ε α) (.error e' : Except ε' α) := by
  intro a
  constructor <;> intro h <;> cases h

theorem SameOk.foldlM {f : β → α → Except ε β} {g : β → α → Except ε' β} :
    ∀ {xs : List α} {start : β}, (∀ b, ∀ a ∈ xs, SameOk (f b a) (g b a)) →
      SameOk (xs.foldlM f start) (xs.foldlM g start)
  | [], start, _, _ => by
    rw [foldlM_nil, foldlM_nil, pure_ok, pure_ok]
  | x :: xs, start, h, _ => by
    rw [foldlM_cons, foldlM_cons]
    refine SameOk.bind (h start x mem_cons_self) (fun _ => SameOk.foldlM fun b a ha => ?_) _
    exact h b a (mem_cons_of_mem x ha)

theorem SameOk.forM {f : α → Except ε Unit} {g : α → Except ε' Unit}
    (h : ∀ a, SameOk (f a) (g a)) {xs : List α} : SameOk (xs.forM f) (xs.forM g) := by
  rintro ⟨⟩
  rw [forM_ok, forM_ok]
  exact forall_congr' fun a => imp_congr_right fun _ => h a ()

end SameOk

end Checks
