/-
Malm.Archive.ReaderTheorems — archive decoding depends on the bytes only.

After every buffer the decoder over a reader and the one over a slice have consumed the
same bytes, however the reader cut them up. So they give the same, unless the reads run
out.
-/
import Malm.Archive.CounterTheorems
import Malm.Archive.OrderTheorems

namespace Malm.Archive

open Malm.Tree Bytes Checks Routine List PayloadReader Reader Session Routine.Simulates

variable {error : ArchiveDecodeError}

/-! ## 1. The slice -/

/-- The same limits, with reads as many as the counter can count. -/
def ArchiveLimits.unmetered (limits : ArchiveLimits) : ArchiveLimits :=
  { limits with maxReadOperations := u64Max }

namespace PayloadReader

def received (slice : PayloadReader) (needed : Nat) : List UInt8 :=
  slice.rest.take (min needed slice.remaining)

def filled (slice : PayloadReader) (needed : Nat) : Except ArchiveDecodeError (List UInt8) :=
  if (slice.received needed).length = needed then .ok (slice.received needed)
  else .error (.truncatedPayload slice.expected
    (slice.consumed + (slice.received needed).length))

def advance (slice : PayloadReader) (bytes : List UInt8) (reads : Nat) : PayloadReader :=
  { slice with
    rest := slice.rest.drop bytes.length
    hashed := slice.hashed ++ bytes
    readOperations := reads }

variable {slice : PayloadReader} {bytes behind : List UInt8} {needed : Nat}

theorem received_zero (slice : PayloadReader) : slice.received 0 = [] := by
  simp [received]

section

variable (hrest : slice.rest = bytes ++ behind)
  (hbytes : bytes.length ≤ min needed slice.remaining) (reads : Nat)
include hrest hbytes reads

theorem received_advance :
    slice.received needed =
      bytes ++ (slice.advance bytes reads).received (needed - bytes.length) := by
  have hcount : min (needed - bytes.length) (slice.advance bytes reads).remaining =
      min needed slice.remaining - bytes.length := by
    simp only [remaining, consumed, advance, length_append] at hbytes ⊢
    omega
  have hfront : bytes.take (min needed slice.remaining) = bytes := take_of_length_le hbytes
  rw [received, received, hcount, hrest, take_append, hfront]
  simp [advance, hrest]

theorem filled_advance :
    slice.filled needed =
      ((slice.advance bytes reads).filled (needed - bytes.length)).map (bytes ++ ·) := by
  have hreceived := received_advance hrest hbytes reads
  have hlen : (slice.received needed).length =
      bytes.length + ((slice.advance bytes reads).received (needed - bytes.length)).length := by
    rw [hreceived, length_append]
  have hconsumed : (slice.advance bytes reads).consumed = slice.consumed + bytes.length := by
    simp [consumed, advance]
  rw [filled, filled]
  by_cases hfull : (slice.received needed).length = needed
  · rw [if_pos hfull, if_pos (by omega), hreceived]
    rfl
  · have hshort : ((slice.advance bytes reads).received (needed - bytes.length)).length ≠
        needed - bytes.length := by
      have hle := Nat.min_le_left needed slice.remaining
      omega
    rw [if_neg hfull, if_neg hshort, hlen, hconsumed, Nat.add_assoc]
    rfl

end

theorem advance_advance (slice : PayloadReader) (bytes more : List UInt8) (reads last : Nat) :
    (slice.advance bytes reads).advance more last = slice.advance (bytes ++ more) last := by
  simp [advance, drop_drop]

theorem received_eq_nil (h : slice.remaining = 0 ∨ slice.rest = []) (needed : Nat) :
    slice.received needed = [] := by
  rcases h with h | h <;> simp [received, h]

theorem filled_of_nil (h : slice.received (needed + 1) = []) :
    slice.filled (needed + 1) = .error (.truncatedPayload slice.expected slice.consumed) := by
  rw [filled, h]
  rfl

theorem advance_nil (slice : PayloadReader) (reads : Nat) :
    slice.advance [] reads = { slice with readOperations := reads } := by
  simp [advance]

end PayloadReader

section Slice

variable {limits : ArchiveLimits} {slice : PayloadReader}

theorem unmetered_charge (reads : Nat) :
    charge reads 1 .readOperations limits.unmetered.maxReadOperations =
      .ok (saturatingAdd reads 1) := by
  have hlimit : ¬ u64Max < saturatingAdd reads 1 := Nat.not_lt.2 (Nat.min_le_right _ _)
  rw [charge, checkArchiveLimit, ArchiveLimits.unmetered, reject, if_neg hlimit]
  rfl

theorem unmetered_chargedRead (count : Nat) :
    chargedRead limits.unmetered count slice =
      (.ok (slice.rest.take count), { slice with
        rest := slice.rest.drop count
        readOperations := saturatingAdd slice.readOperations 1 }) := by
  simp only [chargedRead, unmetered_charge]

theorem ofExcept_pass {cond : Prop} [Decidable cond] (h : ¬ cond) :
    ofExcept (reject cond error) slice = (.ok (), slice) := by
  rw [reject, if_neg h]
  rfl

theorem ofExcept_stop {cond : Prop} [Decidable cond] (h : cond) :
    ofExcept (reject cond error) slice = (.error error, slice) := by
  rw [reject, if_pos h]
  rfl

variable {turns needed : Nat}

variable (limits turns needed) in
theorem unmetered_ended (h : slice.remaining = 0 ∨ slice.rest = []) : ∃ reads,
    readExactPayload limits.unmetered (turns + 1) (needed + 1) slice =
      (.error (.truncatedPayload slice.expected slice.consumed),
        { slice with readOperations := reads }) := by
  rw [readExactPayload]
  simp only [ask_bind]
  by_cases hrem : slice.remaining = 0
  · exact ⟨slice.readOperations, bind_of_error (ofExcept_stop hrem)⟩
  · have hrest := h.resolve_left hrem
    refine ⟨saturatingAdd slice.readOperations 1, ?_⟩
    rw [bind_of_ok (ofExcept_pass hrem), bind_of_ok (unmetered_chargedRead _)]
    simp only [hrest, take_nil, drop_nil]
    exact bind_of_error (ofExcept_stop trivial)

theorem unmetered_more (hrem : slice.remaining ≠ 0) (hrest : slice.rest ≠ []) :
    readExactPayload limits.unmetered (turns + 1) (needed + 1) slice =
      (readExactPayload limits.unmetered turns
          (needed + 1 - (slice.received (needed + 1)).length) >>= fun behind =>
        pure (slice.received (needed + 1) ++ behind))
      (slice.advance (slice.received (needed + 1)) (saturatingAdd slice.readOperations 1)) := by
  have hbytes : slice.received (needed + 1) ≠ [] := by
    simp [received, hrem, hrest]
  have hdrop : slice.rest.drop (slice.received (needed + 1)).length =
      slice.rest.drop (min (needed + 1) slice.remaining) := by
    rw [received, length_take]
    by_cases hle : min (needed + 1) slice.remaining ≤ slice.rest.length
    · rw [Nat.min_eq_left hle]
    · rw [Nat.min_eq_right (by omega), drop_length, drop_of_length_le (by omega)]
  have hread : chargedRead limits.unmetered (min (needed + 1) slice.remaining) slice =
      (.ok (slice.received (needed + 1)), { slice with
        rest := slice.rest.drop (slice.received (needed + 1)).length
        readOperations := saturatingAdd slice.readOperations 1 }) := by
    rw [hdrop]
    exact unmetered_chargedRead _
  rw [readExactPayload]
  simp only [ask_bind]
  rw [bind_of_ok (ofExcept_pass hrem), bind_of_ok hread, bind_of_ok (ofExcept_pass hbytes)]
  exact bind_of_ok rfl

theorem readExactPayload_slice : ∀ (turns needed : Nat) (slice : PayloadReader),
    needed ≤ turns → ∃ reads, readExactPayload limits.unmetered turns needed slice =
      (slice.filled needed, slice.advance (slice.received needed) reads)
  | turns, 0, slice, _ => by
    refine ⟨slice.readOperations, ?_⟩
    rw [readExactPayload, filled, received_zero, advance_nil]
    rfl
  | turns + 1, needed + 1, slice, hturns => by
    by_cases hended : slice.remaining = 0 ∨ slice.rest = []
    · have hreceived := received_eq_nil hended (needed + 1)
      obtain ⟨reads, hread⟩ := unmetered_ended limits turns needed hended
      exact ⟨reads, by rw [hread, hreceived, filled_of_nil hreceived,
        advance_nil]⟩
    · rw [not_or] at hended
      have hsplit : slice.rest = slice.received (needed + 1) ++
          slice.rest.drop (min (needed + 1) slice.remaining) := (take_append_drop _ _).symm
      have hlen : (slice.received (needed + 1)).length ≤ min (needed + 1) slice.remaining :=
        length_take_le _ _
      have hsome : (slice.received (needed + 1)).length ≠ 0 := by
        simp [received, hended]
      have hreceived := received_advance hsplit hlen
        (saturatingAdd slice.readOperations 1)
      have hfilled := filled_advance hsplit hlen
        (saturatingAdd slice.readOperations 1)
      obtain ⟨reads, hbehind⟩ := readExactPayload_slice turns
        (needed + 1 - (slice.received (needed + 1)).length)
        (slice.advance (slice.received (needed + 1)) (saturatingAdd slice.readOperations 1))
        (by omega)
      refine ⟨reads, ?_⟩
      rw [unmetered_more hended.1 hended.2, hfilled, bind_map hbehind]
      rw [advance_advance, ← hreceived]

end Slice

/-! ## 2. Reads of a delivered payload -/

section Follow

variable {σ κ : Type} {sha256 : List UInt8 → ObjectDigest}

/-- Both have consumed the same bytes, and the rest of the slice is ahead of the reader. -/
structure Follows (ahead : σ → List UInt8 → Prop) (session : Session σ sha256)
    (slice : PayloadReader) : Prop where
  rest : ahead session.inner slice.rest
  expected : session.expected = slice.expected
  hashed : session.hashed = slice.hashed

/-- Moreover the parse has come to this state. -/
structure FollowsAt (ahead : σ → List UInt8 → Prop) (state : ParseState (hash sha256))
    (session : Session σ sha256) (slice : PayloadReader) : Prop
    extends Follows ahead session slice where
  state : session.state = state

/-- The reads have run out, and the next one is refused as well. -/
def GaveUp (limits : ArchiveLimits) (error : StreamError κ) (session : Session σ sha256) : Prop :=
  error = .endless ∨
    (∃ limit actual, error = .decode (.resourceLimitExceeded .readOperations limit actual)) ∧
      limits.maxReadOperations < saturatingAdd session.readOperations 1

/-- The decoder over a reader is compared with the one over the slice. -/
def comparison (limits : ArchiveLimits) (ahead : σ → List UInt8 → Prop) :
    Routine.Comparison (StreamError κ) ArchiveDecodeError (Session σ sha256) PayloadReader where
  gaveUp := GaveUp limits
  sameError error other := error = .decode other
  failed := Follows ahead

theorem charge_error {cur amount limit : Nat} {resource : ArchiveResource}
    (h : charge cur amount resource limit = .error error) :
    error = .resourceLimitExceeded resource limit (saturatingAdd cur amount) ∧
      limit < saturatingAdd cur amount := by
  rw [charge, checkArchiveLimit, reject] at h
  split at h
  · rename_i hlimit
    cases h
    exact ⟨rfl, hlimit⟩
  · cases h

variable {limits : ArchiveLimits} {reader : Reader σ κ} {ahead : σ → List UInt8 → Prop}
variable {state : ParseState (hash sha256)}

theorem attemptRead_follows
    (hserves : ∀ s rest count, ahead s rest → Serves ahead rest count (reader.read s count))
    {count : Nat} {slice : PayloadReader} :
    ∀ (attempts : Nat) (session : Session σ sha256), FollowsAt ahead state session slice →
      (∃ error after, reader.attemptRead limits count attempts session = (.error error, after) ∧
        GaveUp limits error after) ∨
      ∃ bytes behind after, reader.attemptRead limits count attempts session = (.ok bytes, after) ∧
        slice.rest = bytes ++ behind ∧ bytes.length ≤ count ∧
        (bytes = [] → count = 0 ∨ slice.rest = []) ∧
        FollowsAt ahead state after { slice with rest := behind }
  | 0, session, _ => .inl ⟨.endless, session, rfl, .inl rfl⟩
  | attempts + 1, session, hfollows => by
    cases hcharge : charge session.readOperations 1 .readOperations limits.maxReadOperations with
    | error error =>
      obtain ⟨rfl, hlimit⟩ := charge_error hcharge
      exact .inl ⟨_, session, attemptRead_refused hcharge, .inr ⟨⟨_, _, rfl⟩, hlimit⟩⟩
    | ok ops =>
      have hserved := hserves session.inner slice.rest count hfollows.rest
      rcases hread : reader.read session.inner count with ⟨r, inner⟩
      rw [hread] at hserved
      cases hserved with
      | @bytes bytes behind _ hrest hend hahead =>
        have hlen := reader.read_length _ _ bytes (congrArg Prod.fst hread)
        exact .inr ⟨bytes, behind, _, attemptRead_bytes hcharge hread, hrest, hlen, hend,
          ⟨⟨hahead, hfollows.expected, hfollows.hashed⟩, hfollows.state⟩⟩
      | interrupted hahead =>
        rw [attemptRead_interrupted hcharge hread]
        exact attemptRead_follows hserves attempts _
          ⟨⟨hahead, hfollows.expected, hfollows.hashed⟩, hfollows.state⟩

theorem readExactPayload_follows
    (hserves : ∀ s rest count, ahead s rest → Serves ahead rest count (reader.read s count)) :
    ∀ (turns needed : Nat) (session : Session σ sha256) (slice : PayloadReader) (reads : Nat),
      needed ≤ turns → FollowsAt ahead state session slice →
      Routine.Ends (comparison limits ahead) (fun a b s t => a = b ∧ FollowsAt ahead state s t)
        (reader.readExactPayload limits turns needed session)
        (slice.filled needed, slice.advance (slice.received needed) reads)
  | turns, 0, session, slice, reads, _, hfollows => by
    rw [Reader.readExactPayload, PayloadReader.filled, PayloadReader.received_zero,
      PayloadReader.advance_nil]
    exact .ok ⟨rfl, ⟨hfollows.rest, hfollows.expected, hfollows.hashed⟩, hfollows.state⟩
  | turns + 1, needed + 1, session, slice, reads, hturns, hfollows => by
    have hconsumed : session.consumed = slice.consumed := by
      rw [Session.consumed, hfollows.hashed, PayloadReader.consumed]
    have hremains : session.remaining = slice.remaining := by
      rw [Session.remaining, hfollows.expected, hconsumed, PayloadReader.remaining]
    by_cases hrem : session.remaining = 0
    · have hreceived := received_eq_nil (.inl (hremains ▸ hrem)) (needed + 1)
      rw [readExactPayload_done hrem, hreceived, filled_of_nil hreceived,
        advance_nil, hfollows.expected, hconsumed]
      exact .error rfl ⟨hfollows.rest, hfollows.expected, hfollows.hashed⟩
    rcases attemptRead_follows hserves
        (limits.maxReadOperations - session.readOperations + 1) session hfollows with
      hfailed | hserved
    · obtain ⟨error, after, hread, hgave⟩ := hfailed
      rw [readExactPayload_failed hrem hread]
      exact .gaveUp hgave
    obtain ⟨bytes, behind, after, hread, hrest, hlen, hend, hafter⟩ := hserved
    by_cases hbytes : bytes = []
    · subst hbytes
      have hnone : slice.rest = [] := (hend rfl).resolve_left (by omega)
      have hreceived := received_eq_nil (.inr hnone) (needed + 1)
      rw [readExactPayload_ended hrem hread, hreceived, filled_of_nil hreceived, advance_nil,
        hfollows.expected, hconsumed]
      have hbehind : behind = slice.rest := by rw [hrest, nil_append]
      subst hbehind
      exact .error rfl ⟨hafter.rest, hafter.expected, hafter.hashed⟩
    · rw [hremains] at hlen
      rw [readExactPayload_more hrem hbytes hread]
      have hpos : bytes.length ≠ 0 := fun h => hbytes (length_eq_zero_iff.1 h)
      have hnext : FollowsAt ahead state { after with hashed := after.hashed ++ bytes }
          (slice.advance bytes reads) := by
        refine ⟨⟨?_, hafter.expected, ?_⟩, hafter.state⟩
        · show ahead after.inner (slice.rest.drop bytes.length)
          rw [hrest, drop_left]
          exact hafter.rest
        · exact congrArg (· ++ bytes) hafter.hashed
      have hbehind := readExactPayload_follows hserves turns (needed + 1 - bytes.length) _ _ reads
        (by omega) hnext
      rcases hrun : reader.readExactPayload limits turns (needed + 1 - bytes.length)
        { after with hashed := after.hashed ++ bytes } with ⟨r, last⟩
      rw [hrun] at hbehind
      rw [bind_map hrun, filled_advance hrest hlen reads, received_advance hrest hlen reads,
        ← advance_advance slice bytes _ reads reads]
      refine hbehind.map ?_
      intro a b hab
      exact ⟨congrArg (bytes ++ ·) hab.1, hab.2⟩

/-! ## 3. The steps of the parse -/

/-- The two decoders end alike from a state of the parse, in the same state. -/
abbrev SameStep (limits : ArchiveLimits) (ahead : σ → List UInt8 → Prop)
    (state : ParseState (hash sha256)) {α : Type} (step : Reading σ κ sha256 α)
    (other : Decode α) : Prop :=
  Routine.Simulates (comparison limits ahead) (FollowsAt ahead state)
    (fun a b session slice => a = b ∧ FollowsAt ahead state session slice) step other

/-- They end alike, and the session has the state that the other returns. -/
abbrev SameState (limits : ArchiveLimits) (ahead : σ → List UInt8 → Prop)
    (state : ParseState (hash sha256)) (step : Reading σ κ sha256 Unit)
    (other : Decode (ParseState (hash sha256))) : Prop :=
  Routine.Simulates (comparison limits ahead) (FollowsAt ahead state)
    (fun _ after => FollowsAt ahead after) step other

section

variable {session : Session σ sha256} {slice : PayloadReader}
  (h : FollowsAt ahead state session slice)
include h

theorem FollowsAt.consumed : session.consumed = slice.consumed := by
  rw [Session.consumed, h.hashed, PayloadReader.consumed]

theorem FollowsAt.remaining : session.remaining = slice.remaining := by
  rw [Session.remaining, h.expected, h.consumed, PayloadReader.remaining]

end

theorem sameStep_remaining : SameStep limits ahead state
    (look remaining : Reading σ κ sha256 Nat) (ask remaining) :=
  look fun _ _ => FollowsAt.remaining

theorem sameStep_consumed : SameStep limits ahead state
    (look consumed : Reading σ κ sha256 Nat) (ask consumed) :=
  look fun _ _ => FollowsAt.consumed

theorem sameStep_hashed : SameStep limits ahead state
    (look hashed : Reading σ κ sha256 (List UInt8)) (ask hashed) :=
  look fun _ _ h => h.hashed

theorem sameStep_pure {α : Type} (a : α) :
    SameStep limits ahead state (pure a : Reading σ κ sha256 α) (pure a) :=
  pure fun _ _ h => ⟨rfl, h⟩

theorem sameStep_raise {α : Type} (r : Except ArchiveDecodeError α) :
    SameStep limits ahead state (raise r : Reading σ κ sha256 α)
      (ofExcept r) := by
  intro session slice hfollows
  cases r with
  | error error => exact .error rfl hfollows.toFollows
  | ok a => exact .ok ⟨rfl, hfollows⟩

theorem sameState_raise (r : Except ArchiveDecodeError Unit) :
    SameState limits ahead state (raise r : Reading σ κ sha256 Unit)
      (ofExcept r >>= fun _ => pure state) := by
  intro session slice hfollows
  cases r with
  | error error => exact .error rfl hfollows.toFollows
  | ok a => exact .ok hfollows

theorem sameHeader_update (block : List UInt8) (blockIndex : Nat) :
    Routine.Simulates (comparison limits ahead) (FollowsAt ahead state)
      (fun header found session slice =>
        header = found.1 ∧ FollowsAt ahead found.2 session slice)
      (update (parseHeader limits block blockIndex) : Reading σ κ sha256 Header)
      (ofExcept (parseHeader limits block blockIndex state)) := by
  intro session slice hfollows
  have hstate := hfollows.state
  subst hstate
  rw [update]
  cases parseHeader limits block blockIndex session.state with
  | error error => exact .error rfl hfollows.toFollows
  | ok found =>
    exact .ok ⟨rfl, ⟨hfollows.rest, hfollows.expected, hfollows.hashed⟩, rfl⟩

theorem sameState_change
    (step : ParseState (hash sha256) → Except ArchiveDecodeError (ParseState (hash sha256))) :
    SameState limits ahead state (change step : Reading σ κ sha256 Unit)
      (ofExcept (step state)) := by
  intro session slice hfollows
  have hstate := hfollows.state
  subst hstate
  rw [change, update]
  cases step session.state with
  | error error => exact .error rfl hfollows.toFollows
  | ok after => exact .ok ⟨⟨hfollows.rest, hfollows.expected, hfollows.hashed⟩, rfl⟩

theorem readBuffer_follows
    (hserves : ∀ s rest count, ahead s rest → Serves ahead rest count (reader.read s count))
    (count : Nat) :
    SameStep limits ahead state (reader.readBuffer limits count : Reading σ κ sha256 _)
      (readBuffer limits.unmetered count) := by
  intro session slice hfollows
  obtain ⟨reads, hslice⟩ := readExactPayload_slice count count slice (le_refl _)
  rw [readBuffer, hslice]
  exact readExactPayload_follows hserves count count session slice reads (le_refl _) hfollows

section Steps

variable (hserves : ∀ s rest count, ahead s rest → Serves ahead rest count (reader.read s count))
include hserves

theorem readChunks_follows : ∀ turns count,
    SameStep limits ahead state (reader.readChunks limits turns count : Reading σ κ sha256 _)
      (readChunks limits.unmetered turns count)
  | _, 0 => by
    rw [Reader.readChunks, readChunks]
    exact sameStep_pure []
  | 0, _ + 1 => sameStep_pure []
  | turns + 1, count + 1 => by
    rw [Reader.readChunks, readChunks]
    refine .bind_eq (readBuffer_follows hserves _) fun bytes => ?_
    exact .bind_eq (readChunks_follows turns _) fun behind => sameStep_pure _

theorem probe_follows :
    SameStep limits ahead state (reader.chargedRead limits 1 : Reading σ κ sha256 _)
      (chargedRead limits.unmetered 1) := by
  intro session slice hfollows
  rw [unmetered_chargedRead]
  rcases attemptRead_follows hserves
      (limits.maxReadOperations - session.readOperations + 1) session hfollows with
    hfailed | hserved
  · obtain ⟨error, after, hread, hgave⟩ := hfailed
    rw [Reader.chargedRead, hread]
    exact .gaveUp hgave
  obtain ⟨bytes, behind, after, hread, hrest, hlen, hend, hafter⟩ := hserved
  have hfront : bytes = slice.rest.take 1 ∧ behind = slice.rest.drop 1 := by
    rw [hrest]
    cases bytes with
    | nil =>
      have hnone := (hend rfl).resolve_left Nat.one_ne_zero
      rw [hrest, nil_append] at hnone
      simp [hnone]
    | cons byte others =>
      obtain rfl : others = [] := length_eq_zero_iff.1 (by simpa using hlen)
      simp
  obtain ⟨rfl, rfl⟩ := hfront
  rw [Reader.chargedRead, hread]
  exact .ok ⟨rfl, ⟨hafter.rest, hafter.expected, hafter.hashed⟩, hafter.state⟩

variable (limits) in
theorem drainVerifyEnd_follows :
    SameStep limits ahead state (reader.drainVerifyEnd limits : Reading σ κ sha256 _)
      (drainVerifyEnd limits.unmetered) := by
  refine .bind_eq sameStep_remaining fun remaining => ?_
  refine .bind_eq (readChunks_follows hserves _ _) fun bytes => ?_
  refine .bind_eq (probe_follows hserves) fun trailing => ?_
  exact .bind_eq (sameStep_raise _) fun _ => sameStep_hashed

theorem decodeFileEntry_follows (header : Header) :
    SameState limits ahead state (reader.decodeFileEntry limits header)
      (decodeFileEntry sha256 limits.unmetered header state) := by
  refine .bind_eq sameStep_remaining fun remaining => ?_
  refine .bind_eq sameStep_consumed fun consumed => ?_
  refine .bind (sameState_change _) fun _ reserved => ?_
  refine .bind_eq (readChunks_follows hserves _ _) fun bytes => ?_
  refine .ite ?_ (sameState_change _)
  refine .bind_eq (readBuffer_follows hserves _) fun padding => ?_
  refine .bind_eq sameStep_consumed fun consumed => ?_
  exact .bind_eq (sameStep_raise _) fun _ => sameState_change _

theorem parseTerminator_follows :
    SameState limits ahead state (reader.parseTerminator limits)
      (parseTerminator sha256 limits.unmetered state) := by
  refine .bind_eq sameStep_remaining fun remaining => ?_
  refine .bind_eq (sameStep_raise _) fun _ => ?_
  refine .bind (sameState_change _) fun _ charged => ?_
  refine .bind_eq (readBuffer_follows hserves _) fun snd => ?_
  refine .bind_eq (sameStep_raise _) fun _ => ?_
  refine .bind_eq sameStep_remaining fun remaining => ?_
  exact sameState_raise _

theorem decodeEntry_follows (header : Header) :
    SameState limits ahead state (reader.decodeEntry limits header)
      (decodeEntry sha256 limits.unmetered header state) := by
  rw [Reader.decodeEntry, decodeEntry]
  cases header.kind with
  | file => exact decodeFileEntry_follows hserves header
  | directory => exact sameState_change _
  | symlink t => exact sameState_change _

theorem parseEntry_follows (block : List UInt8) (blockIndex : Nat) :
    SameState limits ahead state (reader.parseEntry limits block blockIndex)
      (parseEntry sha256 limits.unmetered block blockIndex state) := by
  refine .bind (sameHeader_update block blockIndex) fun header found => ?_
  obtain ⟨other, after⟩ := found
  intro session slice hfollows
  obtain ⟨rfl, hfollows⟩ := hfollows
  exact decodeEntry_follows hserves header session slice hfollows

variable (limits) in
theorem parseUstar_follows : ∀ (turns : Nat) (state : ParseState (hash sha256)),
    SameState limits ahead state (reader.parseUstar limits turns)
      (parseUstar sha256 limits.unmetered turns state)
  | 0, state => by
    intro session slice hfollows
    exact .error rfl hfollows.toFollows
  | turns + 1, state => by
    refine .bind_eq sameStep_remaining fun remaining => ?_
    refine .bind_eq sameStep_consumed fun consumed => ?_
    refine .bind_eq (sameStep_raise _) fun _ => ?_
    refine .bind (sameState_change _) fun _ charged => ?_
    refine .bind_eq (readBuffer_follows hserves _) fun block => ?_
    refine .ite (parseTerminator_follows hserves) ?_
    exact .bind (parseEntry_follows hserves block _) fun _ after => parseUstar_follows turns after

end Steps

/-! ## 4. The result -/

def StreamError.outOfReads : StreamError κ → Bool
  | .decode (.resourceLimitExceeded .readOperations _ _) => true
  | .decode _ => false
  | .readError _ => false
  | .endless => true

theorem GaveUp.outOfReads {error : StreamError κ} {session : Session σ sha256}
    (h : GaveUp limits error session) : error.outOfReads = true := by
  rcases h with rfl | ⟨⟨limit, actual, rfl⟩, -⟩ <;> rfl

theorem drainVerifyEnd_refused {session : Session σ sha256}
    (h : limits.maxReadOperations < saturatingAdd session.readOperations 1) :
    reader.drainVerifyEnd limits session =
      (.error (.decode (.resourceLimitExceeded .readOperations limits.maxReadOperations
        (saturatingAdd session.readOperations 1))), session) := by
  have hcharge : charge session.readOperations 1 .readOperations limits.maxReadOperations =
      .error (.resourceLimitExceeded .readOperations limits.maxReadOperations
        (saturatingAdd session.readOperations 1)) := by
    rw [charge, checkArchiveLimit, reject, if_pos h]
    rfl
  have hread : ∀ count, reader.chargedRead limits count session =
      (.error (.decode (.resourceLimitExceeded .readOperations limits.maxReadOperations
        (saturatingAdd session.readOperations 1))), session) :=
    fun count => attemptRead_refused hcharge
  rw [Reader.drainVerifyEnd, look_bind]
  cases hrem : session.remaining with
  | zero =>
    rw [Reader.readChunks]
    exact (bind_of_ok rfl).trans (bind_of_error (hread 1))
  | succ remaining =>
    have hsome : session.remaining ≠ 0 := by omega
    have hchunk : min (remaining + 1) fileChunkBytes =
        min remaining (fileChunkBytes - 1) + 1 := by
      rw [fileChunkBytes]
      omega
    refine bind_of_error ?_
    rw [Reader.readChunks, hchunk]
    exact bind_of_error (readExactPayload_failed hsome (hread _))

theorem buildTree_unmetered (nodes : SortedMap (List Text) Node) (levels : Nat) :
    buildTree sha256 limits.unmetered nodes levels = buildTree sha256 limits nodes levels := by
  induction levels with
  | zero => rfl
  | succ levels ih =>
    funext directory mode state
    rw [buildTree, buildTree, ih]
    rfl

theorem raise_bind_pure {α β : Type} (r : Except ArchiveDecodeError α) (f : α → β)
    (session : Session σ sha256) :
    ((raise r >>= fun a => pure (f a) : Reading σ κ sha256 β) session).1 =
      (r >>= fun a => pure (f a)).mapError .decode := by
  cases r <;> rfl

theorem finalizeArchive_follows (decl : ArchiveDeclaration) (session : Session σ sha256) :
    ((Reader.finalizeArchive limits decl : Reading σ κ sha256 _) session).1 =
      (finalizeArchive sha256 limits.unmetered session.state decl).mapError .decode := by
  rw [Reader.finalizeArchive, look_bind, finalizeArchive, buildTree_unmetered]
  cases hbuild : buildTree sha256 limits session.state.nodes (maxTreeDepth + 1) []
      rootAndImplicitDirectoryMode session.state with
  | error error =>
    rw [bind_of_error (by rw [update, hbuild])]
    rfl
  | ok built =>
    obtain ⟨rootDigest, after⟩ := built
    rw [bind_of_ok (by rw [update, hbuild]), look_bind]
    exact raise_bind_pure _ _ _

section Attempt

variable {step : Reading σ κ sha256 Unit} {session after : Session σ sha256}

theorem attempt_ok (h : step session = (.ok (), after)) :
    attempt step session = (.ok (.ok ()), after) := by
  rw [attempt, h]

theorem attempt_decode (h : step session = (.error (.decode error), after)) :
    attempt step session = (.ok (.error (.decode error)), after) := by
  rw [attempt, h]

theorem attempt_endless (h : step session = (.error .endless, after)) :
    attempt step session = (.error .endless, after) := by
  rw [attempt, h]

end Attempt

theorem drained_follows
    (hserves : ∀ s rest count, ahead s rest → Serves ahead rest count (reader.read s count))
    {decl : ArchiveDeclaration} {session : Session σ sha256} {slice : PayloadReader}
    {parsed : Except (StreamError κ) Unit}
    {other : Except ArchiveDecodeError (ParseState (hash sha256))}
    (hfollows : Follows ahead session slice)
    (hparsed : (parsed = .ok () ∧ other = .ok session.state) ∨
      ∃ error, parsed = .error (.decode error) ∧ other = .error error)
    {run : Except (StreamError κ) (DecodedArchive sha256)}
    (hrun : ((reader.drainVerifyEnd limits >>= fun hashed => do
        raise (reject (sha256 hashed ≠ decl.payloadDigest)
          (.payloadDigestMismatch decl.payloadDigest (sha256 hashed)))
        lift parsed
        Reader.finalizeArchive limits decl) session).1 = run) :
    (∃ error, run = .error error ∧ error.outOfReads = true) ∨
      run = Except.mapError .decode (do
        let hashed ← (drainVerifyEnd limits.unmetered slice).1
        reject (sha256 hashed ≠ decl.payloadDigest)
          (.payloadDigestMismatch decl.payloadDigest (sha256 hashed))
        let parsed ← other
        finalizeArchive sha256 limits.unmetered parsed decl) := by
  subst hrun
  have hdrain := drainVerifyEnd_follows limits hserves session slice
    ⟨hfollows, rfl⟩
  rcases hfirst : reader.drainVerifyEnd limits session with ⟨r, after⟩
  rcases hsecond : drainVerifyEnd limits.unmetered slice with ⟨result', slice'⟩
  rw [hfirst, hsecond] at hdrain
  cases hdrain with
  | @gaveUp error _ _ hgave =>
    rw [bind_of_error hfirst]
    exact .inl ⟨error, rfl, hgave.outOfReads⟩
  | error herror hstate =>
    obtain rfl := herror
    rw [bind_of_error hfirst]
    exact .inr rfl
  | @ok hashed _ _ _ hok =>
    obtain ⟨rfl, hafter⟩ := hok
    rw [bind_of_ok hfirst]
    refine .inr ?_
    rw [ok_bind]
    by_cases hdigest : sha256 hashed ≠ decl.payloadDigest
    · rw [bind_of_error (raise_stop hdigest), reject, if_pos hdigest]
      rfl
    rw [bind_of_ok (raise_pass hdigest), reject, if_neg hdigest]
    rcases hparsed with ⟨rfl, rfl⟩ | ⟨error, rfl, rfl⟩
    · have hlift : (lift (.ok ()) : Reading σ κ sha256 Unit) after = (.ok (), after) := rfl
      rw [bind_of_ok hlift, finalizeArchive_follows, hafter.state, ok_bind, ok_bind]
    · rfl

/-- **The decoder over a reader gives what that over the slice gives**, unless the reads run
out. -/
theorem decodeArchive_follows {start : σ} {payload : List UInt8}
    (hdelivers : reader.Delivers start payload) (decl : ArchiveDeclaration) :
    (∃ error, (reader.decodeArchive sha256 limits start decl).1 = .error error ∧
        error.outOfReads = true) ∨
      (reader.decodeArchive sha256 limits start decl).1 =
        (decodeArchive sha256 limits.unmetered payload decl).mapError .decode := by
  obtain ⟨ahead, hstart, hserves⟩ := hdelivers
  rw [Reader.decodeArchive, Reader.decode, decodeArchive]
  by_cases hver : decl.decoderVersion ≠ archiveDecoderVersion
  · rw [bind_of_error (raise_stop hver), reject, if_pos hver]
    exact .inr rfl
  rw [bind_of_ok (raise_pass hver)]
  rw [reject, if_neg hver]
  by_cases hlen : limits.maxPayloadBytes < decl.payloadByteLen
  · rw [checkArchiveLimit, bind_of_error (raise_stop hlen), checkArchiveLimit,
      reject, if_pos (show limits.unmetered.maxPayloadBytes < _ from hlen)]
    exact .inr rfl
  rw [checkArchiveLimit, bind_of_ok (raise_pass hlen), checkArchiveLimit,
    reject, if_neg (show ¬ limits.unmetered.maxPayloadBytes < _ from hlen)]
  have hparse := parseUstar_follows limits hserves
    (decl.payloadByteLen / ustarBlockBytes + 1) (ParseState.new (hash sha256))
    (new start decl.payloadByteLen) ⟨payload, decl.payloadByteLen, [], 0⟩
    ⟨⟨hstart, rfl, rfl⟩, rfl⟩
  rcases hfirst : reader.parseUstar limits (decl.payloadByteLen / ustarBlockBytes + 1)
    (new start decl.payloadByteLen) with ⟨r, after⟩
  rcases hsecond : parseUstar sha256 limits.unmetered
    (decl.payloadByteLen / ustarBlockBytes + 1) (ParseState.new (hash sha256))
    ⟨payload, decl.payloadByteLen, [], 0⟩ with ⟨result', slice⟩
  rw [hfirst, hsecond] at hparse
  cases hparse with
  | gaveUp hgave =>
    rcases hgave with rfl | ⟨⟨limit, actual, rfl⟩, hrefused⟩
    · rw [bind_of_error (attempt_endless hfirst)]
      exact .inl ⟨_, rfl, rfl⟩
    · rw [bind_of_ok (attempt_decode hfirst), bind_of_error (drainVerifyEnd_refused hrefused)]
      exact .inl ⟨_, rfl, rfl⟩
  | @error _ other _ _ herror hstate =>
    obtain rfl := herror
    rw [bind_of_ok (attempt_decode hfirst)]
    exact drained_follows hserves hstate (.inr ⟨other, rfl, rfl⟩) rfl
  | ok hok =>
    rw [bind_of_ok (attempt_ok hfirst)]
    exact drained_follows hserves hok.toFollows (.inl ⟨rfl, by rw [hok.state]⟩) rfl

end Follow

/-- The result says that the reads have run out. -/
def readsExhausted {κ α : Type} : Except (StreamError κ) α → Bool
  | .error error => error.outOfReads
  | .ok _ => false

/-- **Archive decoding depends only on the bytes.** Readers that deliver one payload within the
limit of the reads have it decoded to the same result. At most one byte behind the declared length
is read, and no counter ever exceeds its limit. -/
theorem decodeArchive_bytes_only {σ τ κ : Type} (first : Reader σ κ) (second : Reader τ κ)
    (start : σ) (other : τ) (payload : List UInt8) (sha256 : List UInt8 → ObjectDigest)
    (limits : ArchiveLimits) (declaration : ArchiveDeclaration) :
    (first.Delivers start payload → second.Delivers other payload →
      readsExhausted (first.decodeArchive sha256 limits start declaration).1 = false →
      readsExhausted (second.decodeArchive sha256 limits other declaration).1 = false →
      (first.decodeArchive sha256 limits start declaration).1 =
        (second.decodeArchive sha256 limits other declaration).1) ∧
    (first.counted.decodeArchive sha256 limits (start, 0) declaration).2.inner.2 ≤
      declaration.payloadByteLen + 1 ∧
    (∀ turns, ((first.parseUstar limits turns : Reading σ κ sha256 Unit)
      (new start declaration.payloadByteLen)).2.Within limits) ∧
    (first.decodeArchive sha256 limits start declaration).2.Within limits := by
  refine ⟨?_, decodeArchive_handed first sha256 limits start declaration, ?_,
    decodeArchive_within first sha256 limits start declaration⟩
  · intro hfirst hsecond hreads hreads'
    have hslice : ∀ {ρ : Type} {reader : Reader ρ κ} {s : ρ}, reader.Delivers s payload →
        readsExhausted (reader.decodeArchive sha256 limits s declaration).1 = false →
        (reader.decodeArchive sha256 limits s declaration).1 =
          (decodeArchive sha256 limits.unmetered payload declaration).mapError .decode := by
      intro ρ reader s hdelivers hwithin
      refine (decodeArchive_follows hdelivers declaration).resolve_left ?_
      intro hexhausted
      obtain ⟨error, hresult, hout⟩ := hexhausted
      rw [hresult] at hwithin
      exact Bool.false_ne_true (hwithin.symm.trans hout)
    rw [hslice hfirst hreads, hslice hsecond hreads']
  · intro turns
    exact (stable_within first limits).parseUstar turns _ (new_within limits start _)

def sliceReader : Reader (List UInt8) Unit where
  read rest count := (.bytes (rest.take count), rest.drop count)
  read_length := by
    intro rest count bytes h
    cases h
    exact List.length_take_le _ _

/-- A reader that hands out at most four hundred bytes and is interrupted before each. -/
def haltingReader : Reader (List UInt8 × Bool) Unit where
  read s count :=
    if s.2 then (.bytes (s.1.take (min count 400)), s.1.drop (min count 400), false)
    else (.interrupted, s.1, true)
  read_length := by
    intro s count bytes h
    split at h
    · cases h
      exact (List.length_take_le _ _).trans (Nat.min_le_left _ _)
    · cases h

theorem take_of_nil {rest : List UInt8} {count : Nat} (h : rest.take count = []) :
    count = 0 ∨ rest = [] := by
  simpa using h

theorem sliceReader_delivers (payload : List UInt8) : sliceReader.Delivers payload payload := by
  refine ⟨(· = ·), rfl, ?_⟩
  intro s rest count hs
  subst hs
  exact .bytes (take_append_drop _ _).symm take_of_nil rfl

theorem haltingReader_delivers (payload : List UInt8) :
    haltingReader.Delivers (payload, false) payload := by
  refine ⟨fun s rest => s.1 = rest, rfl, ?_⟩
  intro s rest count hs
  obtain ⟨rest', ready⟩ := s
  obtain rfl : rest' = rest := hs
  cases ready with
  | false => exact .interrupted rfl
  | true =>
    refine .bytes (take_append_drop _ _).symm ?_ rfl
    intro hnone
    rcases take_of_nil hnone with hzero | hrest
    · exact .inl (by omega)
    · exact .inr hrest

theorem decodeArchive_bytes_only_directories :
    (sliceReader.decodeArchive directoriesSha256 roomyLimits (payload [directoryA, directoryB])
        (declarationOf directoriesSha256 (payload [directoryA, directoryB]))).1 =
      (haltingReader.decodeArchive directoriesSha256 roomyLimits
        (payload [directoryA, directoryB], false)
        (declarationOf directoriesSha256 (payload [directoryA, directoryB]))).1 :=
  (decodeArchive_bytes_only sliceReader haltingReader _ _ (payload [directoryA, directoryB])
    directoriesSha256 roomyLimits _).1 (sliceReader_delivers _) (haltingReader_delivers _)
    (by decide +kernel) (by decide +kernel)

end Malm.Archive
