/-
Malm.Pack.ManifestObjectTheorems — the encoder and the two decoders of pack
manifests agree.

The engine accepts exactly the layouts of members whose paths ascend
(`decodePackManifestObject_ok`), and the committer reads the blobs and lengths from every
layout (`decodePackManifestMembers_encodeOrdered`).
-/
import Malm.Pack.ManifestObject
import Malm.Pack.ObjectTheorems

namespace Malm.Pack.ManifestObject

open Pack Pack.Object Malm.Tree Bytes Checks List PackManifestMember

variable {previous : Option Text}

/-! ## 1. Lists of members -/

/-- Members after a previous path, in path order. -/
def Ascending : Option Text → List PackManifestMember → Prop
  | _, [] => True
  | previous, member :: members =>
    (∀ last ∈ previous, last < member.path.val) ∧ Ascending (some member.path.val) members

theorem ascending_iff {members : List PackManifestMember} :
    Ascending previous members ↔
      (∀ last ∈ previous, ∀ member ∈ members, last < member.path.val) ∧
        members.Pairwise fun left right => left.path.val < right.path.val := by
  induction members generalizing previous with
  | nil => simp [Ascending]
  | cons member members ih =>
    rw [Ascending, ih, pairwise_cons]
    constructor
    · intro h
      obtain ⟨hlast, hbehind, hpairwise⟩ := h
      have hmember : ∀ other ∈ members, member.path.val < other.path.val := hbehind _ rfl
      refine ⟨?_, hmember, hpairwise⟩
      intro last hmem
      exact forall_mem_cons.2 ⟨hlast last hmem,
        fun other hother => lt_trans (hlast last hmem) (hmember other hother)⟩
    · intro h
      obtain ⟨hlast, hmember, hpairwise⟩ := h
      refine ⟨fun last hmem => hlast last hmem member mem_cons_self, ?_, hpairwise⟩
      intro last hmem
      obtain rfl := Option.some.inj hmem
      exact hmember

theorem sortMembers_perm (members : List PackManifestMember) :
    (sortMembers members).Perm members :=
  perm_insertionSort _ members

theorem sortMembers_ascending {members : List PackManifestMember}
    (hunique : (members.map fun member => member.path.val).Nodup) :
    (sortMembers members).Pairwise fun left right => left.path.val < right.path.val := by
  have hsorted : (sortMembers members).Pairwise fun left right => left.path.val ≤ right.path.val :=
    pairwise_insertionSort
      (fun left right : PackManifestMember => left.path.val ≤ right.path.val) members
  have hdist : ((sortMembers members).map fun member => member.path.val).Nodup :=
    ((sortMembers_perm members).map _).nodup_iff.2 hunique
  exact (hsorted.and (pairwise_map.1 hdist)).imp fun h => lt_of_le_of_ne h.1 h.2

/-! ## 2. The decoder of the engine -/

section Parsers

variable {bytes rest : List UInt8} {member : PackManifestMember}
  {members : List PackManifestMember}

theorem path_short (member : PackManifestMember) :
    (utf8 member.path.val).length ≤ maxMemberPathBytes := by
  rw [Text.utf8_byteLen]
  exact member.path.byteLen_bounds.2

theorem digest_short (member : PackManifestMember) :
    (utf8 (digestText member.blob.val)).length ≤ maxMemberDigestBytes := by
  rw [utf8_digestText_length]
  decide

theorem readHeader_ok {count : Nat} :
    readHeader bytes = .ok (count, rest) ↔
      count ≤ maxMembers ∧ bytes = packManifestObjectDomain ++
        (bigEndian 2 packManifestObjectVersion ++ (bigEndian 8 count ++ rest)) := by
  simp only [readHeader, read_bind_ok, literal_ok, number_ok, check_ok, read_pure_ok, exists_unit,
    reject_ok, not_lt,
    constant_ok (by decide : packManifestObjectVersion < 256 ^ 2)]
  constructor
  · intro h
    obtain ⟨_, rfl, _, rfl, found, _, ⟨-, rfl⟩, _, ⟨hcount, rfl⟩, rfl, rfl⟩ := h
    exact ⟨hcount, rfl⟩
  · intro h
    obtain ⟨hcount, rfl⟩ := h
    exact ⟨_, rfl, _, rfl, count, rest, ⟨lt_of_le_of_lt hcount (by decide), rfl⟩, rest,
      ⟨hcount, rfl⟩, rfl, rfl⟩

theorem readMember_ok :
    readMember previous bytes = .ok (member, rest) ↔
      (∀ last ∈ previous, last < member.path.val) ∧ bytes = encodeMember member ++ rest := by
  have horder : ∀ path : Text, previous.any (path ≤ ·) = true ↔
      ¬ ∀ last ∈ previous, last < path := by
    intro path
    cases previous <;> simp
  simp only [readMember, read_bind_ok, sized_ok (by decide : maxMemberPathBytes < 256 ^ 8),
    sized_ok (by decide : maxMemberDigestBytes < 256 ^ 8), number_ok, check_ok, read_pure_ok,
    exists_unit, reject_ok, require_ok, mapError_ok, fromUtf8_eq_some,
    PackPath.new_ok, digestOf_eq_some, horder, not_not]
  constructor
  · intro h
    obtain ⟨pathBytes, _, ⟨-, rfl⟩, text, _, ⟨rfl, rfl⟩, _, ⟨hless, rfl⟩, digestBytes, _, ⟨-, rfl⟩,
      digest, _, ⟨rfl, rfl⟩, byteLen, _, ⟨hbyteLen, rfl⟩, path, _, ⟨rfl, rfl⟩, blob, _, ⟨rfl, rfl⟩,
      rfl, rfl⟩ := h
    refine ⟨hless, ?_⟩
    have hnumber : (UInt64.ofNat byteLen).toNat = byteLen := UInt64.toNat_ofNat_of_lt' hbyteLen
    simp only [encodeMember, hnumber, append_assoc]
  · intro h
    obtain ⟨hless, rfl⟩ := h
    exact ⟨utf8 member.path.val, _, ⟨path_short member, by
        simp only [encodeMember, append_assoc]⟩, member.path.val, _, ⟨rfl, rfl⟩, _,
      ⟨hless, rfl⟩, utf8 (digestText member.blob.val), _, ⟨digest_short member, rfl⟩,
      digestText member.blob.val, _, ⟨rfl, rfl⟩, member.byteLen.toNat, rest,
      ⟨member.byteLen.toNat_lt, rfl⟩, member.path, _, ⟨rfl, rfl⟩, member.blob, _, ⟨rfl, rfl⟩,
      by simp, rfl⟩

theorem readMembers_ok {count : Nat} :
    readMembers count previous bytes = .ok (members, rest) ↔
      members.length = count ∧ Ascending previous members ∧
        bytes = members.flatMap encodeMember ++ rest := by
  induction count generalizing previous bytes members with
  | zero =>
    rw [readMembers, read_pure_ok, length_eq_zero_iff]
    constructor
    · intro h
      obtain ⟨rfl, rfl⟩ := h
      exact ⟨rfl, trivial, rfl⟩
    · intro h
      obtain ⟨rfl, -, rfl⟩ := h
      exact ⟨rfl, rfl⟩
  | succ count ih =>
    simp only [readMembers, read_bind_ok, read_pure_ok, readMember_ok]
    constructor
    · intro h
      obtain ⟨member, _, ⟨hless, rfl⟩, others, _, hothers, rfl, rfl⟩ := h
      obtain ⟨rfl, hascending, rfl⟩ := ih.1 hothers
      exact ⟨rfl, ⟨hless, hascending⟩, by rw [flatMap_cons, append_assoc]⟩
    · intro h
      obtain ⟨hlen, hascending, rfl⟩ := h
      cases members with
      | nil => cases hlen
      | cons member others =>
        exact ⟨member, _, ⟨hascending.1, by rw [flatMap_cons, append_assoc]⟩, others,
          rest, ih.2 ⟨Nat.succ.inj hlen, hascending.2, rfl⟩, rfl, rfl⟩

theorem decodePackManifestObject_ok :
    decodePackManifestObject bytes = .ok members ↔
      members.length ≤ maxMembers ∧
        (members.Pairwise fun left right => left.path.val < right.path.val) ∧
        bytes = encodeOrdered members := by
  have hascending : ∀ members, Ascending none members ↔
      members.Pairwise fun left right => left.path.val < right.path.val := by
    intro members
    rw [ascending_iff]
    simp
  simp only [decodePackManifestObject, bind_ok, pure_ok]
  constructor
  · intro h
    obtain ⟨⟨found, left⟩, hread, rfl⟩ := h
    simp only [readManifest, read_bind_ok, readHeader_ok, readMembers_ok, finish_ok, read_pure_ok,
      exists_unit, hascending] at hread
    obtain ⟨count, _, ⟨hcount, rfl⟩, others, _, ⟨rfl, hordered, rfl⟩, _, ⟨rfl, rfl⟩, rfl, rfl⟩ :=
      hread
    refine ⟨hcount, hordered, ?_⟩
    rw [append_nil, encodeOrdered]
  · intro h
    obtain ⟨hcount, hordered, rfl⟩ := h
    refine ⟨(members, []), ?_, rfl⟩
    simp only [readManifest, read_bind_ok, readHeader_ok, readMembers_ok, finish_ok, read_pure_ok,
      exists_unit, hascending]
    exact ⟨members.length, members.flatMap encodeMember, ⟨hcount, rfl⟩, members, [],
      ⟨rfl, hordered, by rw [append_nil]⟩, [], ⟨rfl, rfl⟩, rfl, rfl⟩

/-! ## 3. The decoder of the committer -/

def PackManifestMember.retained (member : PackManifestMember) : ObjectDigest × UInt64 :=
  (member.blob, member.byteLen)

theorem readBlob_encodeMember :
    readBlob (encodeMember member ++ rest) = .ok (member.retained, rest) := by
  simp only [readBlob, read_bind_ok, sized_ok (by decide : maxMemberPathBytes < 256 ^ 8),
    sized_ok (by decide : maxMemberDigestBytes < 256 ^ 8), number_ok, check_ok, read_pure_ok,
    require_ok, fromUtf8_eq_some, digestOf_eq_some]
  exact ⟨utf8 member.path.val, _, ⟨path_short member, by
      simp only [encodeMember, append_assoc]⟩, utf8 (digestText member.blob.val), _,
    ⟨digest_short member, rfl⟩, digestText member.blob.val, _, ⟨rfl, rfl⟩, member.byteLen.toNat,
    rest, ⟨member.byteLen.toNat_lt, rfl⟩, member.blob, _, ⟨rfl, rfl⟩,
    by simp [retained], rfl⟩

variable (members rest) in
theorem readBlobs_encodeMembers :
    readBlobs members.length (members.flatMap encodeMember ++ rest) =
      .ok (members.map retained, rest) := by
  induction members with
  | nil => rfl
  | cons member members ih =>
    simp only [length_cons, readBlobs, read_bind_ok, read_pure_ok]
    refine ⟨member.retained, members.flatMap encodeMember ++ rest, ?_,
      members.map retained, rest, ih, rfl, rfl⟩
    rw [flatMap_cons, append_assoc]
    exact readBlob_encodeMember

theorem decodePackManifestMembers_encodeOrdered (hcount : members.length ≤ maxMembers) :
    decodePackManifestMembers (encodeOrdered members) =
      .ok (members.map retained) := by
  simp only [decodePackManifestMembers, bind_ok, pure_ok]
  refine ⟨(members.map retained, []), ?_, rfl⟩
  simp only [readManifestBlobs, read_bind_ok, readHeader_ok, finish_ok, read_pure_ok, exists_unit]
  have hloop := readBlobs_encodeMembers [] members
  rw [append_nil] at hloop
  exact ⟨members.length, members.flatMap encodeMember, ⟨hcount, rfl⟩,
    members.map retained, [], hloop, [], ⟨rfl, rfl⟩, rfl, rfl⟩

end Parsers

/-- **Pack manifests are read alike.** Distinct members within the limit are read back in order;
the committer reads the same ones. -/
theorem packManifest_decoders_agree :
    (∀ members : List PackManifestMember, (members.map fun member => member.path.val).Nodup →
      members.length ≤ maxMembers →
      ∃ sorted, decodePackManifestObject (encodePackManifestObject members) = .ok sorted ∧
        sorted.Perm members ∧
        sorted.Pairwise fun left right => left.path.val < right.path.val) ∧
    ∀ (bytes : List UInt8) (members : List PackManifestMember),
      decodePackManifestObject bytes = .ok members →
      decodePackManifestMembers bytes =
        .ok (members.map fun member => (member.blob, member.byteLen)) := by
  constructor
  · intro members hunique hcount
    have hordered := sortMembers_ascending hunique
    have hperm := sortMembers_perm members
    refine ⟨sortMembers members, ?_, hperm, hordered⟩
    exact decodePackManifestObject_ok.2 ⟨hperm.length_eq ▸ hcount, hordered, rfl⟩
  · intro bytes members h
    obtain ⟨hcount, -, rfl⟩ := decodePackManifestObject_ok.1 h
    exact decodePackManifestMembers_encodeOrdered hcount

end Malm.Pack.ManifestObject
