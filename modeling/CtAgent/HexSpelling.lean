import CtAgent.Capability

/-! What a hex text spells: the shared decoder takes the spellings, and nothing else. -/
namespace CtAgent.Codec
open CtAgent.Lib CtAgent.Capability

/-- Two digits, either case, for each byte. -/
def HexSpells (cs : List Char) (bytes : Bytes) : Prop :=
  cs.map nibble = bytes.flatMap (fun b => [some (b.toNat / 16), some (b.toNat % 16)])

theorem spells_cons {a b : Char} {rest : List Char} {x : UInt8} {bytes : Bytes} :
    HexSpells (a :: b :: rest) (x :: bytes) ↔
      nibble a = some (x.toNat / 16) ∧ nibble b = some (x.toNat % 16) ∧ HexSpells rest bytes := by
  simp only [HexSpells, List.map_cons, List.flatMap_cons, List.cons_append, List.nil_append, List.cons.injEq]

theorem length_of_spells {cs : List Char} {bytes : Bytes} (h : HexSpells cs bytes) :
    cs.length = 2 * bytes.length := by
  have hlen := congrArg List.length h
  simp only [List.length_map, List.length_flatMap, List.length_cons, List.length_nil, List.map_const',
    List.sum_replicate, smul_eq_mul] at hlen
  omega

/-- The shared codec takes the spellings, and gives what they spell. -/
theorem hexDecodeChars_iff_spells {n : ℕ} {cs : List Char} {bytes : Bytes} :
    hexDecodeChars n cs = some bytes ↔ bytes.length = n ∧ HexSpells cs bytes := by
  fun_induction hexDecodeChars n cs generalizing bytes with
  | case1 =>
    constructor
    · intro h
      rw [← Option.some.inj h]
      exact ⟨rfl, rfl⟩
    · intro h
      rw [List.eq_nil_of_length_eq_zero h.1]
  | case2 n a b rest ih =>
    constructor
    · intro h
      obtain ⟨x, hx, h⟩ := Option.bind_eq_some_iff.mp h
      obtain ⟨y, hy, h⟩ := Option.bind_eq_some_iff.mp h
      obtain ⟨bs, hbs, h⟩ := Option.bind_eq_some_iff.mp h
      obtain ⟨hlen, hspell⟩ := ih.mp hbs
      have hx16 := (nibble_lt hx).1
      have hy16 := (nibble_lt hy).1
      have hvalue : (UInt8.ofNat (x * 16 + y)).toNat = x * 16 + y := by
        rw [UInt8.toNat_ofNat']
        omega
      rw [← Option.some.inj h]
      refine ⟨by rw [List.length_cons, hlen], spells_cons.mpr ⟨?_, ?_, hspell⟩⟩
      · rw [hx, hvalue, show (x * 16 + y) / 16 = x by omega]
      · rw [hy, hvalue, show (x * 16 + y) % 16 = y by omega]
    · rintro ⟨hlen, hspell⟩
      cases bytes with
      | nil => exact absurd (length_of_spells hspell) (by simp)
      | cons v bytes =>
        obtain ⟨ha, hb, hrest⟩ := spells_cons.mp hspell
        have hbs := ih.mpr ⟨Nat.succ.inj hlen, hrest⟩
        have hvalue : UInt8.ofNat (v.toNat / 16 * 16 + v.toNat % 16) = v := by
          rw [show v.toNat / 16 * 16 + v.toNat % 16 = v.toNat by omega]
          exact UInt8.ofNat_toNat
        simp only [ha, hb, hbs, Option.bind_eq_bind, Option.bind_some, Option.pure_def, hvalue]
  | case3 n cs hzero hsucc =>
    constructor
    · intro h
      exact absurd h (Option.some_ne_none bytes).symm
    · rintro ⟨hlen, hspell⟩
      have hcs := length_of_spells hspell
      -- the length is twice the number of bytes, so the text is one of the two that were read
      rcases cs with _ | ⟨a, _ | ⟨b, rest⟩⟩
      · have hn : n = 0 := by
          rw [List.length_nil] at hcs
          omega
        exact absurd rfl (hzero hn)
      · rw [List.length_singleton] at hcs
        omega
      · have hn : n = (n - 1) + 1 := by
          rw [List.length_cons, List.length_cons] at hcs
          omega
        exact absurd rfl (hsucc (n - 1) a b rest hn)

theorem spells_unique {cs : List Char} {v w : Bytes} (hv : HexSpells cs v) (hw : HexSpells cs w) : v = w := by
  have hlen : w.length = v.length := by
    have h1 := length_of_spells hv
    have h2 := length_of_spells hw
    omega
  have h1 := Iff.mpr hexDecodeChars_iff_spells ⟨rfl, hv⟩
  have h2 := Iff.mpr hexDecodeChars_iff_spells ⟨hlen, hw⟩
  exact Option.some.inj (h1.symm.trans h2)

theorem nibble_of_spells {cs : List Char} {bytes : Bytes} (h : HexSpells cs bytes) :
    ∀ c ∈ cs, (nibble c).isSome = true :=
  hexDecodeChars_digits (Iff.mpr hexDecodeChars_iff_spells ⟨rfl, h⟩)

/-- A digit is no white space. -/
theorem nibble_solid {c : Char} (h : (nibble c).isSome = true) : isWhiteSpace c = false := by
  have hle (a b : Char) : a ≤ b ↔ a.toNat ≤ b.toNat := Iff.rfl
  unfold nibble at h
  simp only [hle] at h
  have h0 : '0'.toNat = 48 := rfl
  have h9 : '9'.toNat = 57 := rfl
  have ha : 'a'.toNat = 97 := rfl
  have hf : 'f'.toNat = 102 := rfl
  have hA : 'A'.toNat = 65 := rfl
  have hF : 'F'.toNat = 70 := rfl
  have hrange : 48 ≤ c.toNat ∧ c.toNat ≤ 102 := by
    split_ifs at h with h1 h2 h3
    · omega
    · omega
    · omega
    · exact absurd h nofun
  simp only [isWhiteSpace, Bool.or_eq_false_iff, Bool.and_eq_false_iff, decide_eq_false_iff_not,
    beq_eq_false_iff_ne]
  omega

/-- `hex_decode` into an array of its length. -/
def hexVector (n : ℕ) (s : String) : Option (Vector UInt8 n) :=
  (hexDecode n s).bind (fun bytes => if h : bytes.length = n
    then some ⟨bytes.toArray, by simpa using h⟩ else none)

theorem hexVector_iff {n : ℕ} {s : String} {v : Vector UInt8 n} :
    hexVector n s = some v ↔ HexSpells s.toList v.toList := by
  have hlen : v.toList.length = n := by simp
  unfold hexVector hexDecode
  rw [Option.bind_eq_some_iff]
  constructor
  · rintro ⟨bytes, hbytes, hv⟩
    obtain ⟨hn, hspell⟩ := Iff.mp hexDecodeChars_iff_spells hbytes
    rw [dif_pos hn] at hv
    rw [← Option.some.inj hv]
    exact hspell
  · intro h
    refine ⟨v.toList, Iff.mpr hexDecodeChars_iff_spells ⟨hlen, h⟩, ?_⟩
    rw [dif_pos hlen]
    exact congrArg some (Vector.toArray_inj.mp Array.toArray_toList)

/-- What is written spells what was written. -/
theorem spells_hexEncode (bytes : Bytes) : HexSpells (hexEncode bytes).toList bytes :=
  (Iff.mp hexDecodeChars_iff_spells (hexDecode_hexEncode bytes.length bytes rfl)).2

end CtAgent.Codec
