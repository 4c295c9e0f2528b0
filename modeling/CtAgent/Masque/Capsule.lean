import CtAgent.Lib.Bytes

/-! QUIC varints, and the capsules and UDP datagram payloads framed with them. -/
namespace CtAgent.Masque
open CtAgent.Lib

/-- `MAX_VARINT`, the largest value of 62 bits. -/
def maxVarint : ℕ := 2^62 - 1

/-- A value the 62-bit range cannot represent. -/
structure VarintRangeError where
  value : ℕ
  deriving DecidableEq, Repr

def VarintRangeError.text (e : VarintRangeError) : String :=
  s!"varint value {e.value} exceeds the 62-bit QUIC varint range"

/-- `varint::encode`. The two high bits of the first byte tell the length. -/
def encodeVarint (v : ℕ) : Except VarintRangeError Bytes :=
  if v < 2^6 then .ok (toBe 1 v)
  else if v < 2^14 then .ok (toBe 2 (v ||| 0x4000))
  else if v < 2^30 then .ok (toBe 4 (v ||| 0x80000000))
  else if v ≤ maxVarint then .ok (toBe 8 (v ||| 0xC000000000000000))
  else .error ⟨v⟩

/-- `varint::decode`: the value and the bytes it took; `none` while bytes are missing. -/
def decodeVarint (buf : Bytes) : Option (ℕ × ℕ) :=
  match buf with
  | [] => none
  | first :: rest =>
    let len := 2^(first.toNat / 64)
    if rest.length + 1 < len then none
    else some ((rest.take (len - 1)).foldl pushBe (first.toNat % 64), len)

def datagramCapsuleType : ℕ := 0
def maxCapsuleValueLen : ℕ := 65527 + 8
def contextIdRawUdp : ℕ := 0

def encodeCapsule (capType : ℕ) (value : Bytes) : Except VarintRangeError Bytes := do
  let type ← encodeVarint capType
  let len ← encodeVarint value.length
  return type ++ (len ++ value)

/-- `encode_datagram`. -/
def encodeDatagram (payload : Bytes) : Except VarintRangeError Bytes :=
  encodeCapsule datagramCapsuleType payload

def tooLong : String :=
  "capsule Length exceeds the maximum a legitimate UDP-proxying DATAGRAM capsule can carry"

/-- `capsule::decode`: the type, the value and the bytes it took; nothing while it is arriving. -/
def decodeCapsule (buf : Bytes) : Except String (Option (ℕ × Bytes × ℕ)) :=
  match decodeVarint buf with
  | none => .ok none
  | some (capType, typeLen) =>
    match decodeVarint (buf.drop typeLen) with
    | none => .ok none
    | some (len, lenLen) =>
      if maxCapsuleValueLen < len then .error tooLong
      else
        let headerLen := typeLen + lenLen
        let total := headerLen + len
        if buf.length < total then .ok none
        else .ok (some (capType, (buf.drop headerLen).take len, total))

namespace UdpDatagramPayload

def encode (udpPayload : Bytes) : Except VarintRangeError Bytes := do
  let context ← encodeVarint contextIdRawUdp
  return context ++ udpPayload

/-- Only the raw context is read. -/
def decode (buf : Bytes) : Option Bytes :=
  match decodeVarint buf with
  | none => none
  | some (contextId, consumed) => if contextId ≠ contextIdRawUdp then none else some (buf.drop consumed)

end UdpDatagramPayload

section
variable {buf : Bytes} {v n capType : ℕ} {value : Bytes}

theorem decodeVarint_bounds (h : decodeVarint buf = some (v, n)) : 1 ≤ n ∧ n ≤ buf.length := by
  cases buf with
  | nil => cases h
  | cons first rest =>
    rw [decodeVarint] at h
    split at h
    · cases h
    · next hlen =>
      obtain ⟨-, rfl⟩ : _ ∧ 2^(first.toNat / 64) = n := by simpa using Option.some.inj h
      rw [List.length_cons]
      exact ⟨Nat.one_le_two_pow, Nat.le_of_not_lt hlen⟩

/-- Bytes that come later do not change a varint that is there. -/
theorem decodeVarint_append (h : decodeVarint buf = some (v, n)) (more : Bytes) :
    decodeVarint (buf ++ more) = some (v, n) := by
  cases buf with
  | nil => cases h
  | cons first rest =>
    rw [decodeVarint] at h
    split at h
    · cases h
    · next hlen =>
      have hle : 2^(first.toNat / 64) - 1 ≤ rest.length := by omega
      rw [List.cons_append, decodeVarint]
      rw [if_neg (by rw [List.length_append]; omega), List.take_append_of_le_length hle]
      exact h

/-- A number with its two high bits set apart, written in `k + 1` bytes and read back. -/
theorem decodeVarint_tagged (k t : ℕ) (hk : 2^t = k + 1) (ht : t < 4) (hv : v < 2^(8*k + 6))
    (rest : Bytes) : decodeVarint (toBe (k + 1) (v + t * 2^(8*k + 6)) ++ rest) = some (v, k + 1) := by
  have hpow : 2^(8*k + 6) = 2^(8*k) * 64 := by rw [pow_add]; rfl
  have hmul : v + t * 2^(8*k + 6) = v + 2^(8*k) * (t * 64) := by
    rw [hpow]
    ring
  have hdiv : (v + t * 2^(8*k + 6)) / 2^(8*k) = v / 2^(8*k) + t * 64 := by
    rw [hmul, Nat.add_mul_div_left _ _ (Nat.two_pow_pos _)]
  have hmod : (v + t * 2^(8*k + 6)) % 2^(8*k) = v % 2^(8*k) := by
    rw [hmul, Nat.add_mul_mod_self_left]
  have hlow : v / 2^(8*k) < 64 := by
    apply Nat.div_lt_of_lt_mul
    rwa [← hpow]
  -- the first byte holds the tag and the six highest bits of the value
  have hbyte : ∀ q < 64, (q + t * 64) % 2^8 = q + t * 64 ∧ (q + t * 64) % 64 = q ∧ (q + t * 64) / 64 = t := by
    intro q hq
    omega
  obtain ⟨h8, hsix, htwo⟩ := hbyte _ hlow
  have hfirst : (UInt8.ofNat ((v + t * 2^(8*k + 6)) / 2^(8*k))).toNat = v / 2^(8*k) + t * 64 := by
    rw [UInt8.toNat_ofNat', hdiv, h8]
  have htake : (toBe k (v + t * 2^(8*k + 6)) ++ rest).take k = toBe k (v + t * 2^(8*k + 6)) :=
    List.take_left' (toBe_length _ _)
  rw [toBe, List.cons_append, decodeVarint, hfirst, hsix, htwo, hk,
    if_neg (by rw [List.length_append, toBe_length]; omega), Nat.add_sub_cancel, htake, foldl_pushBe_toBe,
    hmod, Nat.div_add_mod']

/-- Every value in range is read back, whatever follows it. -/
theorem decodeVarint_encode (hv : v ≤ maxVarint) :
    ∃ bytes, encodeVarint v = .ok bytes ∧ 1 ≤ bytes.length ∧
      ∀ rest, decodeVarint (bytes ++ rest) = some (v, bytes.length) := by
  have hor (t i : ℕ) (h : v < 2^i) : v ||| t * 2^i = v + t * 2^i := by
    rw [Nat.or_comm, Nat.mul_comm, ← Nat.two_pow_add_eq_or_of_lt h, Nat.add_comm]
  unfold encodeVarint
  split
  · next h =>
    refine ⟨_, rfl, by rw [toBe_length], fun rest => ?_⟩
    have hread := decodeVarint_tagged 0 0 rfl (by decide) h rest
    rw [toBe_length]
    exact hread
  split
  · next h =>
    refine ⟨_, rfl, by rw [toBe_length]; omega, fun rest => ?_⟩
    have hread := decodeVarint_tagged 1 1 rfl (by decide) h rest
    have hsum : v ||| 0x4000 = v + 1 * 2^(8*1 + 6) := hor 1 14 h
    rw [hsum, hread, toBe_length]
  split
  · next h =>
    refine ⟨_, rfl, by rw [toBe_length]; omega, fun rest => ?_⟩
    have hread := decodeVarint_tagged 3 2 rfl (by decide) h rest
    have hsum : v ||| 0x80000000 = v + 2 * 2^(8*3 + 6) := hor 2 30 h
    rw [hsum, hread, toBe_length]
  · have h : v < 2^(8*7 + 6) := by
      unfold maxVarint at hv
      omega
    refine ⟨_, rfl, by rw [toBe_length]; omega, fun rest => ?_⟩
    have hread := decodeVarint_tagged 7 3 rfl (by decide) h rest
    have hsum : v ||| 0xC000000000000000 = v + 3 * 2^(8*7 + 6) := hor 3 62 h
    rw [hsum, hread, toBe_length]

/-- Everything a decoded capsule says about the buffer. -/
theorem decodeCapsule_some (h : decodeCapsule buf = .ok (some (capType, value, n))) :
    ∃ typeLen len lenLen, decodeVarint buf = some (capType, typeLen) ∧
      decodeVarint (buf.drop typeLen) = some (len, lenLen) ∧ len ≤ maxCapsuleValueLen ∧
      n = typeLen + lenLen + len ∧ n ≤ buf.length ∧ value = (buf.drop (typeLen + lenLen)).take len := by
  unfold decodeCapsule at h
  cases ht : decodeVarint buf with
  | none =>
    rw [ht] at h
    cases h
  | some r =>
    obtain ⟨t, typeLen⟩ := r
    cases hl : decodeVarint (buf.drop typeLen) with
    | none =>
      rw [ht] at h
      dsimp only at h
      rw [hl] at h
      cases h
    | some r =>
      obtain ⟨len, lenLen⟩ := r
      rw [ht] at h
      dsimp only at h
      rw [hl] at h
      dsimp only at h
      split at h
      · cases h
      split at h
      · cases h
      · next hmax hlen =>
        obtain ⟨rfl, rfl, rfl⟩ : t = capType ∧ _ = value ∧ _ = n := by
          simpa using Option.some.inj (Except.ok.inj h)
        exact ⟨typeLen, len, lenLen, rfl, hl, Nat.le_of_not_lt hmax, rfl, Nat.le_of_not_lt hlen, rfl⟩

/-- A decoded capsule takes two bytes at least. -/
theorem decodeCapsule_bounds (h : decodeCapsule buf = .ok (some (capType, value, n))) :
    2 ≤ n ∧ n ≤ buf.length := by
  obtain ⟨typeLen, len, lenLen, ht, hl, -, hn, hle, -⟩ := decodeCapsule_some h
  have h₁ := (decodeVarint_bounds ht).1
  have h₂ := (decodeVarint_bounds hl).1
  exact ⟨by omega, hle⟩

theorem decodeCapsule_of_parts {typeLen len lenLen : ℕ} (ht : decodeVarint buf = some (capType, typeLen))
    (hl : decodeVarint (buf.drop typeLen) = some (len, lenLen)) (hmax : len ≤ maxCapsuleValueLen)
    (hlen : typeLen + lenLen + len ≤ buf.length) :
    decodeCapsule buf =
      .ok (some (capType, (buf.drop (typeLen + lenLen)).take len, typeLen + lenLen + len)) := by
  unfold decodeCapsule
  rw [ht]
  dsimp only
  rw [hl]
  dsimp only
  rw [if_neg (Nat.not_lt.mpr hmax), if_neg (Nat.not_lt.mpr hlen)]

/-- Bytes that come later do not change a capsule that is there. -/
theorem decodeCapsule_append (h : decodeCapsule buf = .ok (some (capType, value, n))) (more : Bytes) :
    decodeCapsule (buf ++ more) = .ok (some (capType, value, n)) := by
  obtain ⟨typeLen, len, lenLen, ht, hl, hmax, rfl, hle, rfl⟩ := decodeCapsule_some h
  have htl := (decodeVarint_bounds ht).2
  have hl' : decodeVarint ((buf ++ more).drop typeLen) = some (len, lenLen) := by
    rw [List.drop_append_of_le_length htl]
    exact decodeVarint_append hl more
  have hlen : typeLen + lenLen + len ≤ (buf ++ more).length := by
    rw [List.length_append]
    omega
  have hvalue : ((buf ++ more).drop (typeLen + lenLen)).take len = (buf.drop (typeLen + lenLen)).take len := by
    have hcut : len ≤ (buf.drop (typeLen + lenLen)).length := by
      rw [List.length_drop]
      omega
    rw [List.drop_append_of_le_length (by omega), List.take_append_of_le_length hcut]
  rw [decodeCapsule_of_parts (decodeVarint_append ht more) hl' hmax hlen, hvalue]

/-- Nor do they mend a length that is too large. -/
theorem decodeCapsule_error_append {e : String} (h : decodeCapsule buf = .error e) (more : Bytes) :
    decodeCapsule (buf ++ more) = .error e := by
  unfold decodeCapsule at h
  cases ht : decodeVarint buf with
  | none =>
    rw [ht] at h
    cases h
  | some r =>
    obtain ⟨t, typeLen⟩ := r
    rw [ht] at h
    dsimp only at h
    cases hl : decodeVarint (buf.drop typeLen) with
    | none =>
      rw [hl] at h
      cases h
    | some r =>
      obtain ⟨len, lenLen⟩ := r
      rw [hl] at h
      dsimp only at h
      split at h
      · next hmax =>
        have htl := (decodeVarint_bounds ht).2
        have hl' : decodeVarint ((buf ++ more).drop typeLen) = some (len, lenLen) := by
          rw [List.drop_append_of_le_length htl]
          exact decodeVarint_append hl more
        unfold decodeCapsule
        rw [decodeVarint_append ht more]
        dsimp only
        rw [hl']
        dsimp only
        rw [if_pos hmax]
        exact h
      · split at h <;> cases h

/-- `bytes` are one varint of the wire, in any of its spellings. -/
def Spells (bytes : Bytes) (v : ℕ) : Prop := decodeVarint bytes = some (v, bytes.length)

/-- `bytes` are one whole capsule of the wire: the type, the length of the value and the value. -/
def IsCapsule (bytes : Bytes) (capType : ℕ) (value : Bytes) : Prop :=
  ∃ type len, Spells type capType ∧ Spells len value.length ∧ bytes = type ++ (len ++ value)

/-- A capsule of the wire is read where its value is no longer than a datagram's may be, and refused where
it is. -/
theorem decodeCapsule_wire {bytes : Bytes} (h : IsCapsule bytes capType value) :
    decodeCapsule bytes = if maxCapsuleValueLen < value.length then .error tooLong
      else .ok (some (capType, value, bytes.length)) := by
  obtain ⟨type, len, htype, hlen, rfl⟩ := h
  have ht : decodeVarint (type ++ (len ++ value)) = some (capType, type.length) :=
    decodeVarint_append htype (len ++ value)
  have hl : decodeVarint ((type ++ (len ++ value)).drop type.length) = some (value.length, len.length) := by
    rw [List.drop_left]
    exact decodeVarint_append hlen value
  split
  · next hmax =>
    unfold decodeCapsule
    rw [ht]
    dsimp only
    rw [hl]
    exact if_pos hmax
  · next hmax =>
    have hvalue : ((type ++ (len ++ value)).drop (type.length + len.length)).take value.length = value := by
      rw [← List.drop_drop, List.drop_left, List.drop_left, List.take_length]
    have htotal : type.length + len.length + value.length = (type ++ (len ++ value)).length := by
      rw [List.length_append, List.length_append, Nat.add_assoc]
    have hcap := decodeCapsule_of_parts ht hl (Nat.le_of_not_lt hmax) htotal.le
    rw [hcap, hvalue, htotal]

/-- Whatever follows it. -/
theorem decodeCapsule_front {bytes : Bytes} (h : IsCapsule bytes capType value)
    (hlen : value.length ≤ maxCapsuleValueLen) (rest : Bytes) :
    decodeCapsule (bytes ++ rest) = .ok (some (capType, value, bytes.length)) :=
  decodeCapsule_append ((decodeCapsule_wire h).trans (if_neg (Nat.not_lt.mpr hlen))) rest

/-- `encode` writes a capsule of the wire. -/
theorem encodeCapsule_wire (ht : capType ≤ maxVarint) (hlen : value.length ≤ maxVarint) :
    ∃ bytes, encodeCapsule capType value = .ok bytes ∧ IsCapsule bytes capType value := by
  obtain ⟨type, htype, -, hreadType⟩ := decodeVarint_encode ht
  obtain ⟨len, hlenEnc, -, hreadLen⟩ := decodeVarint_encode hlen
  have htypeSpells : Spells type capType := by simpa [Spells] using hreadType []
  have hlenSpells : Spells len value.length := by simpa [Spells] using hreadLen []
  refine ⟨type ++ (len ++ value), ?_, type, len, htypeSpells, hlenSpells, rfl⟩
  unfold encodeCapsule
  rw [htype, hlenEnc]
  rfl

theorem UdpDatagramPayload.encode_eq (udpPayload : Bytes) :
    UdpDatagramPayload.encode udpPayload = .ok (0 :: udpPayload) := rfl

theorem UdpDatagramPayload.decode_encoded (udpPayload : Bytes) :
    UdpDatagramPayload.decode (0 :: udpPayload) = some udpPayload := by
  have hread : decodeVarint (0 :: udpPayload) = some (0, 1) := by
    rw [decodeVarint]
    rfl
  unfold UdpDatagramPayload.decode
  rw [hread]
  rfl

end

end CtAgent.Masque
