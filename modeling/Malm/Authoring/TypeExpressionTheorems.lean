/-
Malm.Authoring.TypeExpressionTheorems — the parser of type expressions accepts
exactly its grammar, but for blanks directly after a name or after a final `?`.

What one round of the parser reads is derived from what its nested rounds read
(`Sound`), and a round reads every derivation whose nested ones are read (`Reaches`).
-/
import Malm.Authoring.TypeExpression

namespace Malm.Authoring

open Bytes Checks List

variable {core gap more tail text : Text} {types : List Ty}

namespace TypeExpressionParser

variable (self : TypeExpressionParser)

/-! ## 1. Characters and their bytes -/

section Utf8

theorem utf8_cons (c : Char) (text : Text) :
    utf8 (c :: text) = String.utf8EncodeChar c ++ utf8 text := flatMap_cons

theorem encode_codes (c : Char) : ∃ byte bytes, String.utf8EncodeChar c = byte :: bytes ∧
    ((bytes = [] ∧ byte.toNat = c.toNat) ∨
      (128 ≤ c.toNat ∧ ∀ x ∈ byte :: bytes, 128 ≤ x.toNat)) := by
  have hcode : c.val.toNat = c.toNat := rfl
  unfold String.utf8EncodeChar
  rw [hcode]
  generalize c.toNat = code
  dsimp only
  split_ifs
  · refine ⟨_, _, rfl, .inl ⟨rfl, ?_⟩⟩
    rw [UInt8.toNat_ofNat']
    omega
  all_goals
    refine ⟨_, _, rfl, .inr ⟨by omega, ?_⟩⟩
    simp only [mem_cons, not_mem_nil, or_false, forall_eq_or_imp, forall_eq, UInt8.toNat_ofNat']
    omega

variable {q : Nat → Bool} (hq : ∀ code, 128 ≤ code → q code = q 128)

include hq

/-- The bytes of a character are in the same class as its code, when the class does not tell
the codes from 128 on apart. -/
theorem encode_class (c : Char) :
    ∃ byte bytes, String.utf8EncodeChar c = byte :: bytes ∧
      ∀ x ∈ byte :: bytes, q x.toNat = q c.toNat := by
  obtain ⟨byte, bytes, henc, ⟨rfl, heq⟩ | ⟨hc, hall⟩⟩ := encode_codes c
  · refine ⟨byte, [], henc, ?_⟩
    simp [heq]
  · refine ⟨byte, bytes, henc, fun x hx => ?_⟩
    rw [hq _ (hall x hx), hq _ hc]

theorem utf8_takeWhile (text : Text) :
    (utf8 text).takeWhile (q ·.toNat) = utf8 (text.takeWhile (q ·.toNat)) := by
  induction text with
  | nil => rfl
  | cons c text ih =>
    obtain ⟨byte, bytes, henc, hclass⟩ := encode_class hq c
    rw [utf8_cons, henc, takeWhile_cons]
    cases hc : q c.toNat with
    | true =>
      rw [takeWhile_append_of_pos (by simpa [hc] using hclass), ih, if_pos rfl, utf8_cons, henc]
    | false =>
      have hbyte := hclass byte mem_cons_self
      simp [hbyte, hc, utf8]

theorem utf8_dropWhile (text : Text) :
    (utf8 text).dropWhile (q ·.toNat) = utf8 (text.dropWhile (q ·.toNat)) := by
  have hsplit := congrArg utf8 (@takeWhile_append_dropWhile _ (q ·.toNat) text)
  rw [utf8_append, ← utf8_takeWhile hq] at hsplit
  exact append_cancel_left (takeWhile_append_dropWhile.trans hsplit.symm)

theorem utf8_head_any (text : Text) :
    (utf8 text).head?.any (q ·.toNat) = text.head?.any (q ·.toNat) := by
  cases text with
  | nil => rfl
  | cons c text =>
    obtain ⟨byte, bytes, henc, hclass⟩ := encode_class hq c
    rw [utf8_cons, henc]
    exact hclass byte mem_cons_self

omit hq

theorem utf8_head {byte : UInt8} (hlow : byte.toNat < 128) (h : (utf8 text).head? = some byte) :
    ∃ more, text = Char.ofNat byte.toNat :: more ∧ (utf8 text).tail = utf8 more := by
  cases text with
  | nil => cases h
  | cons c more =>
    obtain ⟨first, bytes, henc, ⟨rfl, heq⟩ | ⟨hc, hall⟩⟩ := encode_codes c
    · rw [utf8_cons, henc] at h ⊢
      obtain rfl : first = byte := Option.some.inj h
      exact ⟨more, by rw [heq, Char.ofNat_toNat], rfl⟩
    · rw [utf8_cons, henc] at h
      obtain rfl : first = byte := Option.some.inj h
      have := hall first mem_cons_self
      omega

theorem length_le_utf8 (text : Text) : text.length ≤ (utf8 text).length := by
  induction text with
  | nil => exact Nat.zero_le _
  | cons c text ih =>
    obtain ⟨byte, bytes, henc, -⟩ := encode_codes c
    rw [utf8_cons, henc, length_append, length_cons, length_cons]
    omega

theorem utf8_eq_nil : utf8 text = [] ↔ text = [] := by
  cases text with
  | nil => simp [utf8]
  | cons c text =>
    obtain ⟨byte, bytes, henc, -⟩ := encode_codes c
    simp [utf8_cons, henc]

theorem isBlank_high (code : Nat) (h : 128 ≤ code) : isBlank code = isBlank 128 := by
  simp [isBlank]
  omega

theorem isNameCode_high (code : Nat) (h : 128 ≤ code) : isNameCode code = isNameCode 128 := by
  simp [isNameCode, isOperator, isBlank]
  omega

theorem skipWhitespace_utf8 (text : Text) :
    skipWhitespace (utf8 text) = utf8 (text.dropWhile (isBlank ·.toNat)) :=
  utf8_dropWhile isBlank_high text

theorem skipWhitespace_blanks {gap : Text} (hgap : Blanks gap) (c : Char) (tail : Text)
    (hc : isBlank c.toNat = false) :
    skipWhitespace (utf8 (gap ++ c :: tail)) = utf8 (c :: tail) := by
  rw [skipWhitespace_utf8, dropWhile_append_of_pos hgap, dropWhile_cons_of_neg]
  simp [hc]

end Utf8

/-! ## 2. Where blanks stand -/

theorem blanks_nil : Blanks [] := by simp [Blanks]

variable {word : Text}

section Tight

variable {left right body : Text} {c : Char}

theorem tight_append :
    Tight (left ++ right) tail ↔ Tight left (right ++ tail) ∧ Tight right tail := by
  induction left with
  | nil => simp [Tight]
  | cons c left ih => simp [Tight, ih, and_assoc]

theorem tight_cons_operator (hc : isNameCode c.toNat = false) :
    Tight (c :: body) tail ↔ Tight body tail := by
  simp [Tight, hc]

theorem isNameCode_of_blank {code : Nat} (h : isBlank code = true) : isNameCode code = false := by
  simp [isNameCode, h]

theorem isBlank_of_name {code : Nat} (h : isNameCode code = true) : isBlank code = false := by
  cases hblank : isBlank code with
  | false => rfl
  | true => rw [isNameCode_of_blank hblank] at h; exact h.symm

theorem tight_blanks (hgap : Blanks gap) : Tight gap tail := by
  induction gap with
  | nil => trivial
  | cons c gap ih =>
    have hc := isNameCode_of_blank (hgap c mem_cons_self)
    exact (tight_cons_operator hc).2 (ih fun x hx => hgap x (mem_cons_of_mem _ hx))

theorem tight_name (hword : IsName word) :
    Tight word tail ↔ tail.head?.any (isBlank ·.toNat) = false := by
  obtain ⟨hne, hall⟩ := hword
  induction word with
  | nil => exact absurd rfl hne
  | cons c word ih =>
    have hc := hall c mem_cons_self
    cases word with
    | nil => simp [Tight, hc]
    | cons d word =>
      have hd := isBlank_of_name (hall d (by simp))
      have hrest := ih (by simp) fun x hx => hall x (mem_cons_of_mem _ hx)
      rw [Tight, hrest]
      simp [hd]

theorem name_span (hword : IsName word) (h : tail.head?.any (isNameCode ·.toNat) = false) :
    (word ++ tail).takeWhile (isNameCode ·.toNat) = word ∧
      (word ++ tail).dropWhile (isNameCode ·.toNat) = tail := by
  rw [takeWhile_append_of_pos hword.2, dropWhile_append_of_pos hword.2]
  cases tail with
  | nil => simp
  | cons c tail =>
    have hc : isNameCode c.toNat = false := h
    simp [hc]

/-- A name that a gap follows leaves no room for the gap. -/
theorem gap_nil (hword : IsName word) (hgap : Blanks gap) (h : Tight word (gap ++ tail)) :
    gap = [] := by
  rw [tight_name hword] at h
  cases gap with
  | nil => rfl
  | cons c gap => simp [hgap c mem_cons_self] at h

theorem markLast_iff (body : Text) (hc : isBlank c.toNat = false) (hgap : Blanks gap) :
    MarkLast (body ++ c :: gap) ↔ (c = '?' → gap = []) := by
  have hlast : ((body ++ c :: gap).reverse.dropWhile (isBlank ·.toNat)).head? = some c := by
    have hrev : ∀ x ∈ gap.reverse, isBlank x.toNat = true := fun x hx =>
      hgap x (mem_reverse.1 hx)
    simp [dropWhile_append_of_pos hrev, hc]
  rw [MarkLast, hlast]
  constructor
  · rintro h rfl
    have hmark := h rfl
    by_contra hne
    obtain ⟨front, last, rfl⟩ := (eq_nil_or_concat' gap).resolve_left hne
    have hblank := hgap last (by simp)
    have : last = '?' := by simpa [List.getLast?_cons] using hmark
    rw [this] at hblank
    exact absurd hblank (by decide)
  · intro h hmark
    obtain rfl := Option.some.inj hmark
    simp [h rfl]

end Tight

variable {Item : Grammar} {ty : Ty}

section Grammar

variable {self}

theorem unmarked_last (h : Unmarked self Item core ty) :
    ∃ front c, core = front ++ [c] ∧ isBlank c.toNat = false ∧ c ≠ '?' := by
  cases h with
  | name hword hty =>
    obtain ⟨front, c, rfl⟩ := (eq_nil_or_concat' core).resolve_left hword.1
    have hc := hword.2 c (by simp)
    refine ⟨front, c, rfl, ?_, ?_⟩
    · exact isBlank_of_name hc
    · rintro rfl
      exact absurd hc (by decide)
  | @unary word gap inner =>
    exact ⟨word ++ (gap ++ '<' :: inner), '>', by simp, by decide, by decide⟩
  | @tuple gap inner more =>
    exact ⟨"tuple".toList ++ (gap ++ '<' :: (inner ++ more)), '>', by simp, by decide, by decide⟩

theorem nested_pad (h : Nested self Item text ty) (hgap : Blanks gap) :
    Nested self Item (text ++ gap) ty := by
  have hpad : ∀ right : Text, Blanks right → Blanks (right ++ gap) := by
    intro right hright c hc
    exact (mem_append.1 hc).elim (hright c) (hgap c)
  cases h with
  | plain hleft hcore hright =>
    simpa using Nested.plain hleft hcore (hpad _ hright)
  | optional hleft hcore hmark hright =>
    simpa using Nested.optional hleft hcore hmark (hpad _ hright)

end Grammar

/-! ## 3. Soundness -/

variable {item : TypeReader Ty}

section Soundness

variable {α β : Type}

/-- The outcome is a diagnostic or a result that `post` holds of. -/
def Meets (post : α → Prop) : Except TypeFailure α → Prop
  | .ok a => post a
  | .error (.diagnostic _) => True
  | .error .boundary => False

variable {first : α → Prop} {post : β → Prop} {x : Except TypeFailure α}
  {f : α → Except TypeFailure β}

theorem Meets.bind (hx : Meets first x) (hf : ∀ a, first a → Meets post (f a)) :
    Meets post (x >>= f) := by
  cases x with
  | ok a => exact hf a hx
  | error failure =>
    cases failure with
    | diagnostic reason => trivial
    | boundary => exact hx.elim

theorem Meets.mono {weaker : α → Prop} (hx : Meets first x) (h : ∀ a, first a → weaker a) :
    Meets weaker x := by
  cases x with
  | ok a => exact h a hx
  | error failure =>
    cases failure with
    | diagnostic reason => trivial
    | boundary => exact hx

theorem Meets.reject {c : Prop} [Decidable c] {reason : Diagnostic}
    {f : Unit → Except TypeFailure β} (hf : ¬ c → Meets post (f ())) :
    Meets post (Checks.reject c (.diagnostic reason) >>= f) := by
  by_cases hc : c
  · rw [Checks.reject, if_pos hc]
    trivial
  · rw [Checks.reject, if_neg hc]
    exact hf hc

theorem sliceText_utf8 (text : Text) : sliceText (utf8 text) = .ok text := by
  rw [sliceText, fromUtf8_utf8, require]

variable {self}

/-- The reader takes a text of the grammar, which keeps its place when blanks follow it. -/
structure Sound (Item : Grammar) (item : TypeReader Ty) : Prop where
  pad : ∀ {text ty gap}, Item text ty → Blanks gap → Item (text ++ gap) ty
  reads : ∀ text, Meets (fun read => ∃ body tail, text = body ++ tail ∧ read.2 = utf8 tail ∧
    Item body read.1 ∧ Tight body tail) (item (utf8 text))

theorem skipWhitespace_split (text : Text) : ∃ gap tail, text = gap ++ tail ∧ Blanks gap ∧
    skipWhitespace (utf8 text) = utf8 tail ∧ skipWhitespace (utf8 tail) = utf8 tail := by
  refine ⟨text.takeWhile (isBlank ·.toNat), text.dropWhile (isBlank ·.toNat),
    takeWhile_append_dropWhile.symm, ?_, skipWhitespace_utf8 text, ?_⟩
  · intro c hc
    simpa using mem_takeWhile_imp hc
  · rw [skipWhitespace_utf8, dropWhile_idempotent]

theorem furtherItems_sound (hitem : Sound Item item) (fuel : Nat) :
    ∀ text, Meets (fun read => ∃ gap more tail, text = gap ++ (more ++ tail) ∧ Blanks gap ∧
      read.2 = utf8 tail ∧ skipWhitespace (utf8 tail) = utf8 tail ∧ Further Item more read.1 ∧
      Tight (gap ++ more) tail) (furtherItems item fuel (utf8 text)) := by
  induction fuel with
  | zero =>
    intro text
    obtain ⟨gap, tail, rfl, hgap, hskip, hstop⟩ := skipWhitespace_split text
    refine ⟨gap, [], tail, rfl, hgap, hskip, hstop, .none, ?_⟩
    rw [append_nil]
    exact tight_blanks hgap
  | succ fuel ih =>
    intro text
    obtain ⟨gap, tail, rfl, hgap, hskip, hstop⟩ := skipWhitespace_split text
    rw [furtherItems, hskip]
    by_cases hcomma : (utf8 tail).head? = some 44
    · obtain ⟨rest, rfl, hrest⟩ := utf8_head (by decide) hcomma
      rw [if_pos hcomma, hrest]
      refine (hitem.reads rest).bind fun read hread => ?_
      obtain ⟨ty, bytes⟩ := read
      obtain ⟨body, after, rfl, rfl, hbody, htight⟩ := hread
      refine (ih after).bind fun read hread => ?_
      obtain ⟨types, bytes⟩ := read
      obtain ⟨gap', more, tail, rfl, hgap', rfl, hstop', hmore, htight'⟩ := hread
      refine ⟨gap, ',' :: ((body ++ gap') ++ more), tail, by simp, hgap, rfl, hstop',
        .item (hitem.pad hbody hgap') hmore, ?_⟩
      rw [tight_append, tight_cons_operator (by decide), append_assoc, tight_append]
      exact ⟨tight_blanks hgap, by simpa using htight, htight'⟩
    · rw [if_neg hcomma]
      refine ⟨gap, [], tail, rfl, hgap, rfl, hstop, .none, ?_⟩
      rw [append_nil]
      exact tight_blanks hgap

theorem nameType_meets (self : TypeExpressionParser) (name : String) :
    Meets (fun ty => ty.isOptional = false) (self.nameType name) := by
  unfold nameType
  split
  case h_7 => cases self.enumValues <;> trivial
  case h_8 => cases self.recordSchema <;> trivial
  all_goals trivial

theorem unmarked_not_optional {ty : Ty} (h : Unmarked self Item core ty) :
    ty.isOptional = false := by
  cases h with
  | @name word ty hword hty =>
    have hmeets := nameType_meets self (String.ofList core)
    rw [hty] at hmeets
    exact hmeets
  | unary hword hwrap =>
    unfold unaryGeneric at hwrap
    split at hwrap <;> cases hwrap <;> rfl
  | tuple => rfl

theorem expectByte_sound (text : Text) :
    Meets (fun rest => ∃ tail, text = '>' :: tail ∧ rest = utf8 tail)
      (self.expectByte 62 (utf8 text)) := by
  rw [expectByte]
  by_cases hclose : (utf8 text).head? = some 62
  · obtain ⟨tail, rfl, htail⟩ := utf8_head (by decide) hclose
    rw [if_pos hclose]
    exact ⟨tail, rfl, htail⟩
  · rw [if_neg hclose]
    trivial

theorem genericType_sound (hitem : Sound Item item)
    (hword : IsName word) (text : Text) :
    Meets (fun read => ∃ inside tail, text = inside ++ tail ∧ read.2 = utf8 tail ∧
      Unmarked self Item (word ++ '<' :: inside) read.1 ∧ Tight inside tail)
      (self.genericType item (String.ofList word) (utf8 text)) := by
  unfold genericType
  cases hwrap : unaryGeneric (String.ofList word) with
  | some wrap =>
    refine (hitem.reads text).bind fun read hread => ?_
    obtain ⟨ty, bytes⟩ := read
    obtain ⟨inner, after, rfl, rfl, hinner, htight⟩ := hread
    obtain ⟨gap, tail, rfl, hgap, hskip, -⟩ := skipWhitespace_split after
    dsimp only
    rw [hskip]
    refine (expectByte_sound tail).bind fun rest hrest => ?_
    obtain ⟨tail, rfl, rfl⟩ := hrest
    refine ⟨(inner ++ gap) ++ ['>'], tail, by simp, rfl,
      .unary hword hwrap blanks_nil (hitem.pad hinner hgap), ?_⟩
    rw [tight_append, tight_append]
    exact ⟨⟨by simpa using htight, tight_blanks hgap⟩, (tight_cons_operator (by decide)).2 trivial⟩
  | none =>
    by_cases hname : String.ofList word = "tuple"
    · have hchars : word = "tuple".toList := by rw [← hname, String.toList_ofList]
      rw [if_pos hname]
      refine (hitem.reads text).bind fun read hread => ?_
      obtain ⟨ty, bytes⟩ := read
      obtain ⟨inner, after, rfl, rfl, hinner, htight⟩ := hread
      refine (furtherItems_sound hitem _ after).bind fun read hread => ?_
      obtain ⟨types, bytes⟩ := read
      obtain ⟨gap, more, tail, rfl, hgap, rfl, hstop, hmore, htight'⟩ := hread
      dsimp only
      rw [hstop]
      refine (expectByte_sound tail).bind fun rest hrest => ?_
      obtain ⟨tail, rfl, rfl⟩ := hrest
      refine Meets.reject fun hlen => ?_
      refine ⟨(inner ++ gap) ++ (more ++ ['>']), tail, by simp, rfl, ?_, ?_⟩
      · rw [hchars]
        exact .tuple blanks_nil (hitem.pad hinner hgap) hmore (Nat.le_of_not_lt hlen)
      · rw [append_assoc, tight_append, ← append_assoc, tight_append]
        exact ⟨by simpa using htight, by simpa using htight',
          (tight_cons_operator (by decide)).2 trivial⟩
    · rw [if_neg hname]
      trivial

theorem unmarkedType_sound (hitem : Sound Item item)
    (hword : IsName word) (after : Text)
    (hafter : after.head?.any (isBlank ·.toNat) = false) :
    Meets (fun read => ∃ core tail, word ++ after = core ++ tail ∧ read.2 = utf8 tail ∧
      Unmarked self Item core read.1 ∧ Tight core tail)
      (self.unmarkedType item (String.ofList word) (utf8 after)) := by
  rw [unmarkedType]
  by_cases hopen : (utf8 after).head? = some 60
  · obtain ⟨inside, rfl, hinside⟩ := utf8_head (by decide) hopen
    rw [if_pos hopen, hinside]
    refine (genericType_sound hitem hword inside).mono fun read hread => ?_
    obtain ⟨inside, tail, rfl, hrest, hcore, htight⟩ := hread
    exact ⟨word ++ '<' :: inside, tail, by simp, hrest, hcore, tight_append.2
      ⟨(tight_name hword).2 hafter, (tight_cons_operator (by decide)).2 htight⟩⟩
  · rw [if_neg hopen]
    have hmeets := nameType_meets self (String.ofList word)
    cases hty : self.nameType (String.ofList word) with
    | ok ty => exact ⟨word, after, rfl, rfl, .name hword hty, (tight_name hword).2 hafter⟩
    | error failure =>
      rw [hty] at hmeets
      cases failure with
      | diagnostic reason => trivial
      | boundary => exact hmeets

theorem parseWith_sound (hitem : Sound Item item)
    (text : Text) :
    Meets (fun read => ∃ body tail, text = body ++ tail ∧ read.2 = utf8 tail ∧
      Nested self Item body read.1 ∧ Tight body tail ∧ MarkLast body)
      (self.parseWith item (utf8 text)) := by
  obtain ⟨left, start, rfl, hleft, hskip, -⟩ := skipWhitespace_split text
  obtain ⟨word, after, rfl, hall, htake, hdrop⟩ :
      ∃ word after, start = word ++ after ∧ (∀ c ∈ word, isNameCode c.toNat = true) ∧
        (utf8 start).takeWhile (isNameCode ·.toNat) = utf8 word ∧
        (utf8 start).dropWhile (isNameCode ·.toNat) = utf8 after :=
    ⟨_, _, takeWhile_append_dropWhile.symm,
      fun c hc => by simpa using mem_takeWhile_imp hc,
      utf8_takeWhile isNameCode_high start, utf8_dropWhile isNameCode_high start⟩
  rw [parseWith, hskip, htake, hdrop, utf8_head_any isBlank_high]
  refine Meets.reject fun hblank => Meets.reject fun hne => ?_
  have hword : IsName word := ⟨fun hnil => hne (utf8_eq_nil.2 hnil), hall⟩
  rw [sliceText_utf8, ok_bind]
  refine (unmarkedType_sound hitem hword after (by simpa using hblank)).bind
    fun read hread => ?_
  obtain ⟨ty, bytes⟩ := read
  obtain ⟨core, tail, htext, rfl, hcore, htight⟩ := hread
  obtain ⟨gap, tail, rfl, hgap, hskip, -⟩ := skipWhitespace_split tail
  obtain ⟨front, c, rfl, hc, hne⟩ := unmarked_last hcore
  dsimp only
  rw [hskip, optionalMark, htext]
  by_cases hmark : (utf8 tail).head? = some 63
  · obtain ⟨rest, rfl, hrest⟩ := utf8_head (by decide) hmark
    rw [if_pos hmark, hrest]
    refine Meets.reject fun _ => ?_
    refine ⟨left ++ ((front ++ [c]) ++ (gap ++ ['?'])), rest, by simp, rfl,
      .optional hleft hcore hgap blanks_nil, ?_, ?_⟩
    · have hcore' : Tight (front ++ [c]) ((gap ++ ['?']) ++ rest) := by
        rw [append_assoc]
        exact htight
      exact tight_append.2 ⟨tight_blanks hleft, tight_append.2 ⟨hcore', tight_append.2
        ⟨tight_blanks hgap, (tight_cons_operator (by decide)).2 trivial⟩⟩⟩
    · have hlast := @markLast_iff [] '?' (left ++ ((front ++ [c]) ++ gap)) (by decide)
        blanks_nil
      simpa using hlast.2 fun _ => rfl
  · rw [if_neg hmark]
    refine ⟨left ++ ((front ++ [c]) ++ gap), tail, by simp, rfl, .plain hleft hcore hgap, ?_, ?_⟩
    · rw [tight_append, tight_append]
      exact ⟨tight_blanks hleft, htight, tight_blanks hgap⟩
    · have hlast := markLast_iff (left ++ front) hc hgap
      simpa using hlast.2 fun h => absurd h hne

theorem parse_sound (levels : Nat) : Sound (Derives self levels) (self.parse levels) := by
  induction levels with
  | zero => exact ⟨fun h => h.elim, fun _ => trivial⟩
  | succ levels ih =>
    refine ⟨nested_pad, fun text => (parseWith_sound ih text).mono fun read hread => ?_⟩
    obtain ⟨body, tail, htext, hrest, hbody, htight, -⟩ := hread
    exact ⟨body, tail, htext, hrest, hbody, htight⟩

end Soundness

/-! ## 4. Completeness -/

section Completeness

variable {self}

/-- The characters that may follow a nested type. -/
def Follows (tail : Text) : Prop := ∀ c ∈ tail.head?, c = '>' ∨ c = ','

/-- The reader accepts what `Item` derives, but for the blanks after a `?`. -/
def Reaches (Item : Grammar) (item : TypeReader Ty) : Prop :=
  ∀ {text tail ty}, Item text ty → Tight text tail → Follows tail →
    ∃ gap, item (utf8 (text ++ tail)) = .ok (ty, utf8 (gap ++ tail)) ∧ Blanks gap ∧
      (gap = [] ∨ ∃ front, text = front ++ '?' :: gap)

theorem expectByte_reaches (tail : Text) :
    self.expectByte 62 (utf8 ('>' :: tail)) = .ok (utf8 tail) := rfl

theorem follows_further (hmore : Further Item more types) : Follows (more ++ '>' :: tail) := by
  cases hmore with
  | none => simp [Follows]
  | item hitem hmore => simp [Follows]

theorem skip_further {more tail gap : Text} {types : List Ty}
    (hmore : Further Item more types) (hgap : Blanks gap) :
    skipWhitespace (utf8 (gap ++ (more ++ '>' :: tail))) = utf8 (more ++ '>' :: tail) := by
  cases hmore with
  | none => exact skipWhitespace_blanks hgap '>' tail (by decide)
  | item hitem hmore => exact skipWhitespace_blanks hgap ',' _ (by decide)

theorem furtherItems_reaches (hitem : Reaches Item item) (hmore : Further Item more types)
    (tail : Text) :
    ∀ {gap : Text} {fuel : Nat}, Blanks gap → Tight more ('>' :: tail) →
      types.length < fuel →
      furtherItems item fuel (utf8 (gap ++ (more ++ '>' :: tail))) =
        .ok (types, utf8 ('>' :: tail)) := by
  induction hmore with
  | none =>
    intro gap fuel hgap htight hfuel
    obtain ⟨fuel, rfl⟩ := Nat.exists_eq_succ_of_ne_zero (Nat.ne_zero_of_lt hfuel)
    have hskip := @skip_further Item [] tail _ _ .none hgap
    rw [furtherItems, hskip, if_neg]
    · rfl
    · intro h
      exact absurd (Option.some.inj h) (by decide)
  | @item text more ty types hfirst hmore ih =>
    intro gap fuel hgap htight hfuel
    obtain ⟨fuel, rfl⟩ := Nat.exists_eq_succ_of_ne_zero (Nat.ne_zero_of_lt hfuel)
    rw [tight_cons_operator (by decide), tight_append] at htight
    obtain ⟨gap', hread, hgap', -⟩ := hitem hfirst htight.1 (follows_further hmore)
    have htail :
        (',' :: (text ++ more)) ++ '>' :: tail = ',' :: (text ++ (more ++ '>' :: tail)) := by
      simp
    have hrest := ih hgap' htight.2 (Nat.lt_of_succ_lt_succ hfuel)
    rw [furtherItems, skip_further (.item hfirst hmore) hgap, htail, if_pos (by rfl)]
    show (item (utf8 (text ++ (more ++ '>' :: tail))) >>= _) = _
    rw [hread, ok_bind]
    dsimp only
    rw [hrest]
    rfl

theorem further_length (h : Further Item more types) :
    types.length ≤ more.length := by
  induction h with
  | none => rfl
  | item hitem hmore ih =>
    simp only [length_cons, length_append]
    omega

theorem head_ne {byte : UInt8} {text : Text} (hlow : byte.toNat < 128)
    (h : ∀ c ∈ text.head?, c ≠ Char.ofNat byte.toNat) : (utf8 text).head? ≠ some byte := by
  intro hhead
  obtain ⟨more, rfl, -⟩ := utf8_head hlow hhead
  exact h _ rfl rfl

/-- What may follow a type that has no mark yet. -/
def Stops (after : Text) : Prop := ∀ c ∈ after.head?, isNameCode c.toNat = false ∧ c ≠ '<'

theorem unmarkedType_reaches (hitem : Reaches Item item) {ty : Ty}
    (h : Unmarked self Item core ty) (htight : Tight core tail) (hstops : Stops tail) :
    ∃ word after, core ++ tail = word ++ after ∧ IsName word ∧
      after.head?.any (isBlank ·.toNat) = false ∧ after.head?.any (isNameCode ·.toNat) = false ∧
      self.unmarkedType item (String.ofList word) (utf8 after) = .ok (ty, utf8 tail) := by
  cases h with
  | name hword hty =>
    refine ⟨core, tail, rfl, hword, (tight_name hword).1 htight, ?_, ?_⟩
    · cases tail with
      | nil => rfl
      | cons c tail => exact (hstops c rfl).1
    · rw [unmarkedType, if_neg (@head_ne 60 tail (by decide) fun c hc =>
        (hstops c hc).2), hty]
      rfl
  | @unary word gap inner wrap ty hword hwrap hgap hinner =>
    obtain ⟨hname, hinside⟩ := tight_append.1 htight
    obtain rfl : gap = [] := gap_nil hword hgap (by simpa using hname)
    have hinner' : Tight inner ('>' :: tail) :=
      (tight_append.1 ((tight_cons_operator (by decide)).1 hinside)).1
    obtain ⟨gap, hread, hgap, -⟩ := hitem hinner hinner' (by simp [Follows])
    refine ⟨word, '<' :: (inner ++ '>' :: tail), by simp, hword, rfl, rfl, ?_⟩
    rw [unmarkedType, if_pos (by rfl), genericType, hwrap]
    show (item (utf8 (inner ++ '>' :: tail)) >>= _) = _
    rw [hread, ok_bind]
    dsimp only
    rw [skipWhitespace_blanks hgap '>' tail (by decide), expectByte_reaches]
    rfl
  | @tuple gap inner more ty types hgap hinner hmore hlen =>
    have hword : IsName "tuple".toList := by
      simp [IsName, isNameCode, isOperator, isBlank]
    obtain ⟨hname, hinside⟩ := tight_append.1 htight
    obtain rfl : gap = [] := gap_nil hword hgap (by simpa using hname)
    obtain ⟨hinner', hmore'⟩ := tight_append.1 ((tight_cons_operator (by decide)).1 hinside)
    obtain ⟨gap, hread, hgap, -⟩ := hitem hinner (by simpa using hinner') (follows_further hmore)
    refine ⟨"tuple".toList, '<' :: (inner ++ (more ++ '>' :: tail)), by simp, hword, rfl, rfl, ?_⟩
    have hfuel : types.length < (utf8 (gap ++ (more ++ '>' :: tail))).length := by
      have hmin := length_le_utf8 (gap ++ (more ++ '>' :: tail))
      have := further_length hmore
      simp only [length_append, length_cons] at hmin
      omega
    rw [unmarkedType, if_pos (by rfl)]
    show (item (utf8 (inner ++ (more ++ '>' :: tail))) >>= _) = _
    rw [hread, ok_bind]
    dsimp only
    rw [furtherItems_reaches hitem hmore tail hgap (tight_append.1 hmore').1 hfuel, ok_bind]
    dsimp only
    have hskip := @skipWhitespace_blanks [] blanks_nil '>' tail (by decide)
    rw [nil_append] at hskip
    rw [hskip, expectByte_reaches, ok_bind, reject_ok.2 (Nat.not_lt_of_le hlen)]
    rfl

/-- Skipping ends where a type may end, or at the next mark. -/
theorem skip_follows (hgap : Blanks gap) (htail : Follows tail) :
    skipWhitespace (utf8 (gap ++ tail)) = utf8 tail := by
  cases tail with
  | nil =>
    rw [append_nil, skipWhitespace_utf8, dropWhile_eq_nil_iff.2 hgap]
  | cons c tail =>
    refine skipWhitespace_blanks hgap c tail ?_
    rcases htail c rfl with rfl | rfl <;> decide

theorem stops_blanks (hgap : Blanks gap) (htail : Stops tail) :
    Stops (gap ++ tail) := by
  cases gap with
  | nil => exact htail
  | cons c gap =>
    rintro x ⟨⟩
    have hc := hgap c mem_cons_self
    refine ⟨isNameCode_of_blank hc, ?_⟩
    rintro rfl
    exact absurd hc (by decide)

theorem not_mark {gap tail : Text} (hgap : Blanks gap) (htail : Follows tail) :
    (utf8 (gap ++ tail)).head? ≠ some 63 := by
  refine head_ne (by decide) ?_
  rintro c hc rfl
  cases gap with
  | nil => rcases htail _ hc with h | h <;> exact absurd h (by decide)
  | cons d gap =>
    obtain rfl := Option.some.inj hc
    exact absurd (hgap _ mem_cons_self) (by decide)

theorem optionalMark_reaches {base ty : Ty} {after : Text} (hcore : Unmarked self Item core base)
    (htail : Follows tail)
    (h : (Blanks after ∧ ty = base) ∨ ∃ gap right, after = gap ++ '?' :: right ∧ Blanks gap ∧
      Blanks right ∧ ty = .optional base) :
    ∃ gap, self.optionalMark base (skipWhitespace (utf8 (after ++ tail))) =
      .ok (ty, utf8 (gap ++ tail)) ∧ Blanks gap ∧
      (gap = [] ∨ ∃ front, core ++ after = front ++ '?' :: gap) := by
  rcases h with ⟨hafter, rfl⟩ | ⟨gap, right, rfl, hgap, hright, rfl⟩
  · refine ⟨[], ?_, blanks_nil, .inl rfl⟩
    have hmark : (utf8 tail).head? ≠ some 63 := @not_mark [] tail blanks_nil htail
    rw [skip_follows hafter htail, optionalMark, if_neg hmark]
    rfl
  · refine ⟨right, ?_, hright, .inr ⟨core ++ gap, by simp⟩⟩
    have hsecond : ¬ (base.isOptional = true ∨ (utf8 (right ++ tail)).head? = some 63) := by
      rintro (h | h)
      · rw [unmarked_not_optional hcore] at h
        cases h
      · exact not_mark hright htail h
    rw [append_assoc, cons_append, skipWhitespace_blanks hgap '?' _ (by decide),
      optionalMark, if_pos (by rfl)]
    show (reject (base.isOptional = true ∨ (utf8 (right ++ tail)).head? = some 63) _ >>= _) = _
    rw [reject_ok.2 hsecond]
    rfl

theorem parseWith_reaches (hitem : Reaches Item item) :
    Reaches (Nested self Item) (self.parseWith item) := by
  intro text tail ty h htight htail
  obtain ⟨left, core, after, base, rfl, hleft, hcore, hafter⟩ :
      ∃ left core after base, text = left ++ (core ++ after) ∧ Blanks left ∧
        Unmarked self Item core base ∧ ((Blanks after ∧ ty = base) ∨
          ∃ gap right, after = gap ++ '?' :: right ∧ Blanks gap ∧ Blanks right ∧
            ty = .optional base) := by
    cases h with
    | plain hleft hcore hright => exact ⟨_, _, _, _, rfl, hleft, hcore, .inl ⟨hright, rfl⟩⟩
    | optional hleft hcore hgap hright =>
      exact ⟨_, _, _, _, rfl, hleft, hcore, .inr ⟨_, _, rfl, hgap, hright, rfl⟩⟩
  have hstops : Stops (after ++ tail) := by
    have htail' : Stops tail := by
      intro c hc
      rcases htail c hc with rfl | rfl <;> decide
    rcases hafter with ⟨hafter, -⟩ | ⟨gap, right, rfl, hgap, -, -⟩
    · exact stops_blanks hafter htail'
    · rw [append_assoc]
      refine stops_blanks hgap ?_
      rintro c ⟨⟩
      decide
  have htight' := (tight_append.1 (tight_append.1 htight).2).1
  obtain ⟨word, rest, htext, hword, hblank, hname, hread⟩ :=
    unmarkedType_reaches hitem hcore htight' hstops
  obtain ⟨gap, hmark, hgap, hends⟩ := optionalMark_reaches hcore htail hafter
  have hends' : gap = [] ∨ ∃ front, left ++ (core ++ after) = front ++ '?' :: gap := by
    rcases hends with rfl | ⟨front, hfront⟩
    · exact .inl rfl
    · exact .inr ⟨left ++ front, by rw [hfront, append_assoc]⟩
  refine ⟨gap, ?_, hgap, hends'⟩
  have hskip : skipWhitespace (utf8 (left ++ (word ++ rest))) = utf8 (word ++ rest) := by
    obtain ⟨c, word, rfl⟩ := exists_cons_of_ne_nil hword.1
    exact skipWhitespace_blanks hleft c _ (isBlank_of_name (hword.2 c mem_cons_self))
  obtain ⟨htake, hdrop⟩ := name_span hword hname
  have hbytes : (left ++ (core ++ after)) ++ tail = left ++ (word ++ rest) := by
    rw [← htext]
    simp
  rw [parseWith, hbytes, hskip, utf8_takeWhile isNameCode_high,
    utf8_dropWhile isNameCode_high, htake, hdrop, utf8_head_any isBlank_high, hblank,
    reject_ok.2 (by simp), ok_bind]
  dsimp only
  rw [reject_ok.2 fun hnil => hword.1 (utf8_eq_nil.1 hnil), ok_bind, sliceText_utf8, ok_bind,
    hread, ok_bind]
  exact hmark

theorem parse_reaches (levels : Nat) : Reaches (Derives self levels) (self.parse levels) := by
  induction levels with
  | zero => exact fun h => h.elim
  | succ levels ih => exact parseWith_reaches ih

end Completeness

/-! ## 5. The parser is exact -/

theorem parseTypeExpression_meets : Meets (fun ty =>
    Derives self (maxTypeDepth + 1) self.raw.toList ty ∧ BlanksPlaced self.raw.toList)
    self.parseTypeExpression := by
  refine (parseWith_sound (parse_sound maxTypeDepth) _).bind fun read hread => ?_
  obtain ⟨ty, bytes⟩ := read
  obtain ⟨body, tail, htext, rfl, hbody, htight, hmark⟩ := hread
  dsimp only
  by_cases hend : utf8 tail = []
  · obtain rfl := utf8_eq_nil.1 hend
    rw [if_pos hend]
    rw [append_nil] at htext
    rw [htext]
    exact ⟨hbody, htight, hmark⟩
  · rw [if_neg hend, sliceText_utf8]
    trivial

theorem parseTypeExpression_of_derives {ty : Ty}
    (h : Derives self (maxTypeDepth + 1) self.raw.toList ty)
    (hplaced : BlanksPlaced self.raw.toList) :
    self.parseTypeExpression = .ok ty := by
  obtain ⟨gap, hread, hgap, hend⟩ :=
    parse_reaches (maxTypeDepth + 1) h hplaced.1 (by simp [Follows])
  have hnil : gap = [] := by
    rcases hend with rfl | ⟨front, hfront⟩
    · rfl
    · have hmark := hplaced.2
      rw [hfront] at hmark
      exact (markLast_iff front (by decide) hgap).1 hmark rfl
  rw [append_nil] at hread
  rw [parseTypeExpression, hread, ok_bind, hnil]
  rfl

section Printing

variable {self}

/-- What a printed type promises: it derives the type after any blanks, and no blank of its own
stands where the parser refuses it. -/
def PrintsWell (Item : Grammar) (ty : Ty) : Prop :=
  (∀ left, Blanks left → Item (left ++ (display ty).toList) ty) ∧ MarkLast (display ty).toList ∧
    ∀ tail : Text, tail.head?.any (isBlank ·.toNat) = false → Tight (display ty).toList tail

theorem printsWell_of_unmarked (htext : (display ty).toList = text)
    (hcore : Unmarked self Item text ty)
    (htight : ∀ tail : Text, tail.head?.any (isBlank ·.toNat) = false → Tight text tail) :
    PrintsWell (Nested self Item) ty := by
  rw [PrintsWell, htext]
  refine ⟨fun left hleft => ?_, ?_, htight⟩
  · have h : Nested self Item (left ++ (text ++ [])) ty := .plain hleft hcore blanks_nil
    rwa [append_nil] at h
  · obtain ⟨front, c, rfl, hc, hne⟩ := unmarked_last hcore
    exact (markLast_iff front hc blanks_nil).2 fun h => absurd h hne

theorem printsWell_name {name : String} (htext : display ty = name) (hword : IsName name.toList)
    (hty : self.nameType name = .ok ty) : PrintsWell (Nested self Item) ty := by
  rw [← @String.ofList_toList name] at hty
  exact printsWell_of_unmarked (congrArg _ htext) (.name hword hty) fun _ => (tight_name hword).2

theorem tight_generic {word inside : Text} (hword : IsName word) (h : Tight inside ('>' :: tail)) :
    Tight (word ++ ([] ++ '<' :: (inside ++ ['>']))) tail := by
  refine tight_append.2 ⟨(tight_name hword).2 rfl, (tight_cons_operator (by decide)).2 ?_⟩
  exact tight_append.2 ⟨h, (tight_cons_operator (by decide)).2 trivial⟩

theorem printsWell_unary (name : String) {wrap : Ty → Ty} (hword : IsName name.toList)
    (hwrap : unaryGeneric name = some wrap)
    (htext : display (wrap ty) = name ++ "<" ++ display ty ++ ">")
    (hitem : PrintsWell Item ty) : PrintsWell (Nested self Item) (wrap ty) := by
  rw [← @String.ofList_toList name] at hwrap
  refine printsWell_of_unmarked ?_ (.unary hword hwrap blanks_nil (hitem.1 [] blanks_nil))
    fun tail _ => tight_generic hword (hitem.2.2 _ rfl)
  rw [htext]
  simp

/-- The items after the first, each behind the separator of `join`. -/
def displayRest (types : List Ty) : Text :=
  types.flatMap fun ty => ',' :: ' ' :: (display ty).toList

theorem displayAll_join (types : List Ty) : ∀ ty,
    (", ".intercalate (displayAll (ty :: types))).toList =
    (display ty).toList ++ displayRest types := by
  induction types with
  | nil =>
    intro ty
    rw [displayAll, displayAll, String.intercalate_singleton, displayRest, flatMap_nil, append_nil]
  | cons next types ih =>
    intro ty
    rw [displayAll, displayAll, String.intercalate_cons_cons, ← displayAll, String.toList_append,
      String.toList_append, ih next, displayRest, displayRest, flatMap_cons]
    simp

theorem displayRest_further (h : ∀ ty ∈ types, PrintsWell Item ty) :
    Further Item (displayRest types) types ∧
      ∀ tail : Text, tail.head?.any (isBlank ·.toNat) = false →
        Tight (displayRest types) tail := by
  induction types with
  | nil => exact ⟨.none, fun _ _ => trivial⟩
  | cons ty types ih =>
    obtain ⟨hmore, htight⟩ := ih fun ty hty => h ty (mem_cons_of_mem _ hty)
    have hty := h ty mem_cons_self
    refine ⟨.item (hty.1 [' '] (by simp [Blanks, isBlank])) hmore, fun tail htail => ?_⟩
    refine (tight_cons_operator (by decide)).2 ((tight_cons_operator (by decide)).2
      (tight_append.2 ⟨hty.2.2 _ ?_, htight tail htail⟩))
    cases types with
    | nil => exact htail
    | cons => rfl

theorem printsWell_tuple (h : ∀ item ∈ ty :: types, PrintsWell Item item)
    (hlen : types.length + 1 ≤ maxTypeDepth) :
    PrintsWell (Nested self Item) (.tuple (ty :: types)) := by
  have hword : IsName "tuple".toList := by simp [IsName, isNameCode, isOperator, isBlank]
  have hty := h ty mem_cons_self
  obtain ⟨hmore, htight⟩ := displayRest_further fun ty hty => h ty (mem_cons_of_mem _ hty)
  refine printsWell_of_unmarked ?_ (.tuple blanks_nil (hty.1 [] blanks_nil) hmore hlen)
    fun tail _ => ?_
  · rw [display, String.toList_append, String.toList_append, displayAll_join]
    simp
  · have hinside := tight_append.2 ⟨hty.2.2 (displayRest types ++ '>' :: tail) ?_, htight _ rfl⟩
    · simpa using tight_generic hword hinside
    · cases types <;> rfl

theorem printable_printsWell (levels : Nat) :
    ∀ ty, Printable self levels ty → PrintsWell (Derives self levels) ty := by
  induction levels with
  | zero => exact fun ty h => h.elim
  | succ levels ih =>
    have hname : ∀ word ∈ ["bool", "int", "float", "string", "path", "kdl-document", "list",
        "collection", "map", "set"], IsName word.toList := by
      simp [IsName, isNameCode, isOperator, isBlank]
    intro ty h
    cases ty with
    | bool | int | float | string | path | kdlDocument =>
      exact printsWell_name (by rw [display]) (hname _ (by decide)) rfl
    | named name => exact printsWell_name (by rw [display]) h.1 h.2
    | list item =>
      exact printsWell_unary "list" (hname _ (by decide)) rfl (by rw [display]; rfl) (ih item h)
    | collection item =>
      exact printsWell_unary "collection" (hname _ (by decide)) rfl (by rw [display]; rfl)
        (ih item h)
    | map item =>
      exact printsWell_unary "map" (hname _ (by decide)) rfl (by rw [display]; rfl) (ih item h)
    | set item =>
      exact printsWell_unary "set" (hname _ (by decide)) rfl (by rw [display]; rfl) (ih item h)
    | tuple items =>
      obtain ⟨hne, hlen, hall⟩ := h
      obtain ⟨ty, types, rfl⟩ := exists_cons_of_ne_nil hne
      exact printsWell_tuple (fun item hitem => ih item (hall item hitem)) hlen
    | enum | record | optional | variant | refine => exact h.elim

end Printing

/-- **The parser accepts its grammar** exactly where the blanks are placed; every slice is at
character boundaries, and the text of a type is read back. -/
theorem parseTypeExpression_exact :
    ((∀ ty, self.parseTypeExpression = .ok ty ↔
        Derives self (maxTypeDepth + 1) self.raw.toList ty) ↔
      ∀ ty, Derives self (maxTypeDepth + 1) self.raw.toList ty → BlanksPlaced self.raw.toList) ∧
    self.parseTypeExpression ≠ .error .boundary ∧
    ∀ ty, Printable self (maxTypeDepth + 1) ty → self.raw = display ty →
      self.parseTypeExpression = .ok ty := by
  have hmeets := parseTypeExpression_meets self
  refine ⟨⟨?_, ?_⟩, ?_, ?_⟩
  · intro hexact ty h
    rw [(hexact ty).2 h] at hmeets
    exact hmeets.2
  · intro hplaced ty
    constructor
    · intro h
      rw [h] at hmeets
      exact hmeets.1
    · exact fun h => parseTypeExpression_of_derives self h (hplaced ty h)
  · intro h
    rw [h] at hmeets
    exact hmeets
  · intro ty hty hraw
    obtain ⟨hderives, hmark, htight⟩ := printable_printsWell (maxTypeDepth + 1) ty hty
    rw [← hraw] at htight hmark hderives
    exact parseTypeExpression_of_derives self (hderives [] blanks_nil)
      ⟨htight [] rfl, hmark⟩

/-- `list<int >`. -/
def spacedList : TypeExpressionParser :=
  ⟨⟨0⟩, .mk none "" [] none ⟨0, 0⟩, "list<int >", .ok [], .ok []⟩

theorem spacedList_refused :
    ¬ ∀ ty, spacedList.parseTypeExpression = .ok ty ↔
      Derives spacedList (maxTypeDepth + 1) spacedList.raw.toList ty := by
  intro hexact
  have hint : Unmarked spacedList (Derives spacedList 31) "int".toList .int :=
    .name (by simp [IsName, isNameCode, isOperator, isBlank]) rfl
  have hitem : Derives spacedList maxTypeDepth "int ".toList .int :=
    Nested.plain blanks_nil hint (by simp [Blanks, isBlank] : Blanks [' '])
  have hlist : Unmarked spacedList (Derives spacedList maxTypeDepth) "list<int >".toList
      (.list .int) :=
    @Unmarked.unary _ _ "list".toList _ _ _ _ (by simp [IsName, isNameCode, isOperator, isBlank])
      rfl blanks_nil hitem
  have hderives : Derives spacedList (maxTypeDepth + 1) "list<int >".toList (.list .int) :=
    Nested.plain blanks_nil hlist blanks_nil
  have hmeets := parseTypeExpression_meets spacedList
  rw [(hexact _).2 hderives] at hmeets
  have htight : Tight "list<int >".toList [] := hmeets.2.1
  simp [Tight, isNameCode, isOperator, isBlank] at htight

end TypeExpressionParser

end Malm.Authoring
