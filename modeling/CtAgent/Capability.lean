import CtAgent.Codec

/-! The routing token of `CT_AGENT_TOKEN` and the shared hex codec: two decoders of 64 digits. -/
namespace CtAgent.Capability
open CtAgent.Lib CtAgent.Codec

def checkedDigits : ℕ → List Char → Option ℕ
  | acc, [] => some acc
  | acc, c :: cs => do
    let d ← nibble c
    -- `checked_mul` and `checked_add`: one of them fails where the sum leaves a `u8`
    if 256 ≤ acc * 16 + d then none else checkedDigits (acc * 16 + d) cs

/-- `u8::from_str_radix(s, 16)`. -/
def u8FromStrRadix16 (s : String) : Option UInt8 :=
  match s.toList with
  | [] | ['+'] | ['-'] => none
  | '+' :: digits => (checkedDigits 0 digits).map UInt8.ofNat
  | digits => (checkedDigits 0 digits).map UInt8.ofNat

/-- `chunks(2)`. -/
def chunksOfTwo : Bytes → List Bytes
  | a :: b :: rest => [a, b] :: chunksOfTwo rest
  | [a] => [[a]]
  | [] => []

def tokenByte (chunk : Bytes) : Option UInt8 := do
  let s ← ofUtf8 chunk
  u8FromStrRadix16 s

/-- Parse a 64-hex routing token, if valid. -/
def parseRoutingTokenHex (s : String) : Option Bytes :=
  let s := trim s
  if (utf8 s).length ≠ 64 then none else (chunksOfTwo (utf8 s)).mapM tokenByte

/-- The same loop over the characters of the string, where all of them are ASCII. -/
def tokenChars : ℕ → List Char → Option Bytes
  | 0, [] => some []
  | n + 1, a :: b :: rest => do
    let v ← u8FromStrRadix16 (String.ofList [a, b])
    let vs ← tokenChars n rest
    return v :: vs
  | _, _ => none

/-- `n` pairs of a hex digit or a plus sign, then a hex digit. -/
def plusPairs : ℕ → List Char → Bool
  | 0, [] => true
  | n + 1, a :: b :: rest => (a == '+' || (nibble a).isSome) && (nibble b).isSome && plusPairs n rest
  | _, _ => false

/-- Thirty-two such pairs, one of them with the sign. -/
def signedToken (cs : List Char) : Bool := plusPairs 32 cs && cs.contains '+'

theorem nibble_lt {c : Char} {d : ℕ} (h : nibble c = some d) : d < 16 ∧ c.val.toNat ≤ 0x7f := by
  unfold nibble at h
  have hle (a b : Char) : a ≤ b ↔ a.toNat ≤ b.toNat := Iff.rfl
  simp only [hle] at h
  have h9 : '9'.toNat = 57 := rfl
  have hf : 'f'.toNat = 102 := rfl
  have hF : 'F'.toNat = 70 := rfl
  change d < 16 ∧ c.toNat ≤ 0x7f
  split_ifs at h with h1 h2 h3
  · have he := Option.some.inj h
    omega
  · have he := Option.some.inj h
    omega
  · have he := Option.some.inj h
    omega

theorem nibble_plus : nibble '+' = none := rfl

theorem checkedDigits_ascii {acc v : ℕ} {cs : List Char} (h : checkedDigits acc cs = some v) :
    ∀ c ∈ cs, c.val.toNat ≤ 0x7f := by
  induction cs generalizing acc with
  | nil =>
    intro c hc
    exact absurd hc List.not_mem_nil
  | cons a cs ih =>
    rw [checkedDigits] at h
    obtain ⟨d, hd, h⟩ := Option.bind_eq_some_iff.mp h
    split at h
    · exact absurd h nofun
    · intro c hc
      rcases List.mem_cons.mp hc with rfl | hc
      · exact (nibble_lt hd).2
      · exact ih h c hc

theorem u8FromStrRadix16_ascii {s : String} {v : UInt8} (h : u8FromStrRadix16 s = some v) :
    ∀ c ∈ s.toList, c.val.toNat ≤ 0x7f := by
  unfold u8FromStrRadix16 at h
  split at h
  · exact absurd h nofun
  · exact absurd h nofun
  · exact absurd h nofun
  · rename_i digits _ _ he
    obtain ⟨w, hw, -⟩ := Option.map_eq_some_iff.mp h
    rw [he]
    intro c hc
    rcases List.mem_cons.mp hc with rfl | hc
    · decide
    · exact checkedDigits_ascii hw c hc
  · obtain ⟨w, hw, -⟩ := Option.map_eq_some_iff.mp h
    exact checkedDigits_ascii hw

/-- A pair of characters read as one byte. -/
theorem u8FromStrRadix16_pair (a b : Char) :
    u8FromStrRadix16 (String.ofList [a, b]) =
      if a = '+' then (nibble b).map UInt8.ofNat
      else (nibble a).bind (fun x => (nibble b).map (fun y => UInt8.ofNat (x * 16 + y))) := by
  unfold u8FromStrRadix16
  rw [String.toList_ofList]
  split
  · contradiction
  · rename_i he
    exact absurd (congrArg List.length he) (by simp)
  · rename_i he
    exact absurd (congrArg List.length he) (by simp)
  · rename_i digits _ _ he
    obtain ⟨rfl, rfl⟩ := List.cons.inj he
    rw [if_pos rfl]
    cases hb : nibble b with
    | none => simp [checkedDigits, hb]
    | some y =>
      have hy := (nibble_lt hb).1
      simp [checkedDigits, hb, show ¬ 256 ≤ y by omega]
  · rename_i hplus
    have ha : a ≠ '+' := by
      rintro rfl
      exact hplus [b] rfl
    rw [if_neg ha]
    cases hx : nibble a with
    | none => simp [checkedDigits, hx]
    | some x =>
      have hx16 := (nibble_lt hx).1
      cases hy : nibble b with
      | none => simp [checkedDigits, hx, hy]
      | some y =>
        have hy16 := (nibble_lt hy).1
        simp [checkedDigits, hx, hy, show ¬ 256 ≤ x by omega, show ¬ 256 ≤ x * 16 + y by omega]

theorem high_of_tokenByte {x y : UInt8} {v : UInt8} (h : tokenByte [x, y] = some v) :
    x.toNat ≤ 0x7f ∧ y.toNat ≤ 0x7f := by
  obtain ⟨s, hs, hv⟩ := Option.bind_eq_some_iff.mp h
  have hbytes := utf8_of_ofUtf8 hs
  have hlow : ∀ z ∈ utf8 s, z.toNat ≤ 0x7f := by
    intro z hz
    rw [← String.ofList_toList (s := s), utf8_ofList] at hz
    obtain ⟨c, hc, hz⟩ := List.mem_flatMap.mp hz
    have hascii := u8FromStrRadix16_ascii hv c hc
    rw [utf8EncodeChar_ascii hascii, List.mem_singleton] at hz
    rw [hz, UInt8.toNat_ofNat']
    omega
  rw [hbytes] at hlow
  exact ⟨hlow x (by simp), hlow y (by simp)⟩

theorem tokenByte_ascii {a b : Char} (ha : a.val.toNat ≤ 0x7f) (hb : b.val.toNat ≤ 0x7f) :
    tokenByte [UInt8.ofNat a.val.toNat, UInt8.ofNat b.val.toNat] =
      u8FromStrRadix16 (String.ofList [a, b]) := by
  have hbytes : utf8 (String.ofList [a, b]) = [UInt8.ofNat a.val.toNat, UInt8.ofNat b.val.toNat] := by
    rw [utf8_ofList]
    simp [utf8EncodeChar_ascii ha, utf8EncodeChar_ascii hb]
  unfold tokenByte
  rw [← hbytes, ofUtf8_utf8]
  rfl

theorem utf8EncodeChar_high {c : Char} (hc : ¬ c.val.toNat ≤ 0x7f) :
    ∃ x rest, String.utf8EncodeChar c = x :: rest ∧ 0x80 ≤ x.toNat := by
  cases he : String.utf8EncodeChar c with
  | nil =>
    have hl := congrArg List.length he
    rw [String.length_utf8EncodeChar] at hl
    exact absurd hl (Nat.pos_iff_ne_zero.mp c.utf8Size_pos)
  | cons x rest =>
    refine ⟨x, rest, rfl, ?_⟩
    apply high_of_mem_utf8EncodeChar (Nat.lt_of_not_le hc)
    rw [he]
    exact List.mem_cons_self

theorem tokenChars_high {n : ℕ} {a b : Char} {rest : List Char}
    (h : ¬ a.val.toNat ≤ 0x7f ∨ ¬ b.val.toNat ≤ 0x7f) : tokenChars (n + 1) (a :: b :: rest) = none := by
  have hpair : u8FromStrRadix16 (String.ofList [a, b]) = none := by
    apply Option.eq_none_iff_forall_not_mem.mpr
    intro v hv
    have hascii := u8FromStrRadix16_ascii hv
    rw [String.toList_ofList] at hascii
    rcases h with h | h
    · exact h (hascii a (by simp))
    · exact h (hascii b (by simp))
  rw [tokenChars, hpair]
  rfl

theorem chunksOfTwo_high {x y : UInt8} {rest : Bytes} (h : 0x80 ≤ x.toNat ∨ 0x80 ≤ y.toNat) :
    (chunksOfTwo (x :: y :: rest)).mapM tokenByte = none := by
  have hnone : tokenByte [x, y] = none := by
    apply Option.eq_none_iff_forall_not_mem.mpr
    intro v hv
    have hlow := high_of_tokenByte hv
    omega
  rw [chunksOfTwo, List.mapM_cons, hnone]
  rfl

/-- The loop over the bytes is the loop over the characters: no pair takes a part of a character. -/
theorem mapM_tokenByte (n : ℕ) (cs : List Char) (h : (utf8 (String.ofList cs)).length = 2 * n) :
    (chunksOfTwo (utf8 (String.ofList cs))).mapM tokenByte = tokenChars n cs := by
  induction n generalizing cs with
  | zero =>
    rw [utf8_ofList] at h ⊢
    cases cs with
    | nil => rfl
    | cons a rest =>
      have hpos := a.utf8Size_pos
      rw [List.flatMap_cons, List.length_append, String.length_utf8EncodeChar] at h
      omega
  | succ n ih =>
    rw [utf8_ofList] at h ⊢
    cases cs with
    | nil => exact absurd h (by simp)
    | cons a rest =>
      rw [List.flatMap_cons] at h ⊢
      by_cases ha : a.val.toNat ≤ 0x7f
      · rw [utf8EncodeChar_ascii ha] at h ⊢
        cases rest with
        | nil =>
          have hodd : 1 = 2 * (n + 1) := h
          omega
        | cons b rest =>
          rw [List.flatMap_cons] at h ⊢
          by_cases hb : b.val.toNat ≤ 0x7f
          · rw [utf8EncodeChar_ascii hb] at h ⊢
            have hrest : (utf8 (String.ofList rest)).length = 2 * n := by
              simp only [List.length_append, List.length_singleton] at h
              rw [utf8_ofList]
              omega
            have hchunk := ih rest hrest
            rw [utf8_ofList] at hchunk
            simp only [List.cons_append, List.nil_append, chunksOfTwo, List.mapM_cons, tokenChars,
              tokenByte_ascii ha hb, hchunk]
          · obtain ⟨y, tail, hy, hhigh⟩ := utf8EncodeChar_high hb
            rw [hy, tokenChars_high (Or.inr hb)]
            exact chunksOfTwo_high (Or.inr hhigh)
      · obtain ⟨x, tail, hx, hhigh⟩ := utf8EncodeChar_high ha
        rw [hx] at h ⊢
        have hnone : tokenChars (n + 1) (a :: rest) = none := by
          cases rest with
          | nil => rfl
          | cons b rest => exact tokenChars_high (Or.inl ha)
        rw [hnone]
        cases hr : tail ++ rest.flatMap String.utf8EncodeChar with
        | nil =>
          rw [List.cons_append, hr] at h
          have hodd : 1 = 2 * (n + 1) := h
          omega
        | cons y tail' =>
          rw [List.cons_append, hr]
          exact chunksOfTwo_high (Or.inl hhigh)

theorem tokenChars_isSome (n : ℕ) (cs : List Char) : (tokenChars n cs).isSome = plusPairs n cs := by
  fun_induction plusPairs n cs with
  | case1 => rfl
  | case2 n a b rest ih =>
    have hpair : (u8FromStrRadix16 (String.ofList [a, b])).isSome
        = ((a == '+' || (nibble a).isSome) && (nibble b).isSome) := by
      rw [u8FromStrRadix16_pair]
      by_cases ha : a = '+'
      · simp [ha]
      · cases hx : nibble a with
        | none => simp [ha]
        | some x => simp [ha]
    rw [← hpair, ← ih, tokenChars]
    cases u8FromStrRadix16 (String.ofList [a, b]) with
    | none => rfl
    | some v =>
      cases tokenChars n rest with
      | none => rfl
      | some vs => rfl
  | case3 n cs hzero hsucc =>
    cases n with
    | zero =>
      cases cs with
      | nil => exact absurd rfl (hzero rfl)
      | cons a rest => rfl
    | succ n =>
      match cs, hsucc with
      | [], _ => rfl
      | [a], _ => rfl
      | a :: b :: rest, hsucc => exact absurd rfl (hsucc n a b rest rfl)

theorem tokenChars_of_unsigned {n : ℕ} {cs : List Char} (h : '+' ∉ cs) :
    tokenChars n cs = hexDecodeChars n cs := by
  fun_induction hexDecodeChars n cs with
  | case1 => rfl
  | case2 n a b rest ih =>
    have ha : a ≠ '+' := by
      rintro rfl
      exact h List.mem_cons_self
    have hrest : '+' ∉ rest := fun hm => h (List.mem_cons_of_mem a (List.mem_cons_of_mem b hm))
    rw [tokenChars, ih hrest, u8FromStrRadix16_pair, if_neg ha]
    cases nibble a with
    | none => rfl
    | some x =>
      cases nibble b with
      | none => rfl
      | some y => rfl
  | case3 n cs hzero hsucc =>
    match n, cs, hzero, hsucc with
    | 0, [], hzero, _ => exact absurd rfl (hzero rfl)
    | 0, a :: rest, _, _ => rfl
    | n + 1, [], _, _ => rfl
    | n + 1, [a], _, _ => rfl
    | n + 1, a :: b :: rest, _, hsucc => exact absurd rfl (hsucc n a b rest rfl)

/-- The shared codec takes no sign. -/
theorem hexDecodeChars_digits {n : ℕ} {cs : List Char} {bs : Bytes} (h : hexDecodeChars n cs = some bs) :
    ∀ c ∈ cs, (nibble c).isSome = true := by
  fun_induction hexDecodeChars n cs generalizing bs with
  | case1 =>
    intro c hc
    exact absurd hc List.not_mem_nil
  | case2 n a b rest ih =>
    obtain ⟨x, hx, h⟩ := Option.bind_eq_some_iff.mp h
    obtain ⟨y, hy, h⟩ := Option.bind_eq_some_iff.mp h
    obtain ⟨vs, hvs, -⟩ := Option.bind_eq_some_iff.mp h
    intro c hc
    rcases List.mem_cons.mp hc with rfl | hc
    · rw [hx]
      rfl
    · rcases List.mem_cons.mp hc with rfl | hc
      · rw [hy]
        rfl
      · exact ih hvs c hc
  | case3 => exact absurd h nofun

theorem hexDecodeChars_signed {n : ℕ} {cs : List Char} (h : '+' ∈ cs) : hexDecodeChars n cs = none := by
  apply Option.eq_none_iff_forall_not_mem.mpr
  intro bs hbs
  have hplus := hexDecodeChars_digits hbs '+' h
  rw [nibble_plus] at hplus
  exact absurd hplus (by decide)

theorem plusPairs_length {n : ℕ} {cs : List Char} (h : plusPairs n cs = true) :
    (utf8 (String.ofList cs)).length = 2 * n := by
  fun_induction plusPairs n cs with
  | case1 => rfl
  | case2 n a b rest ih =>
    simp only [Bool.and_eq_true, Bool.or_eq_true, beq_iff_eq] at h
    obtain ⟨⟨ha, hb⟩, hrest⟩ := h
    have hascii (c : Char) (hc : (nibble c).isSome = true) : c.val.toNat ≤ 0x7f := by
      obtain ⟨d, hd⟩ := Option.isSome_iff_exists.mp hc
      exact (nibble_lt hd).2
    have ha : a.val.toNat ≤ 0x7f := by
      rcases ha with rfl | ha
      · decide
      · exact hascii a ha
    have hl := ih hrest
    rw [utf8_ofList] at hl ⊢
    rw [List.flatMap_cons, List.flatMap_cons, utf8EncodeChar_ascii ha, utf8EncodeChar_ascii (hascii b hb)]
    simp only [List.length_append, List.length_singleton, hl]
    omega
  | case3 => exact absurd h nofun

theorem parseRoutingTokenHex_eq (s : String) : parseRoutingTokenHex s = tokenChars 32 (trim s).toList := by
  change (if (utf8 (trim s)).length ≠ 64 then none else (chunksOfTwo (utf8 (trim s))).mapM tokenByte) = _
  have hs : String.ofList (trim s).toList = trim s := String.ofList_toList
  split
  · rename_i hl
    symm
    rw [← Option.not_isSome_iff_eq_none, tokenChars_isSome]
    intro hp
    apply hl
    rw [← hs]
    exact plusPairs_length hp
  · rename_i hl
    rw [← hs] at hl ⊢
    rw [String.toList_ofList]
    exact mapM_tokenByte 32 _ (not_not.mp hl)

theorem parseRoutingTokenHex_of_unsigned {s : String} (h : signedToken (trim s).toList = false) :
    parseRoutingTokenHex s = hexDecode 32 (trim s) := by
  rw [parseRoutingTokenHex_eq, hexDecode]
  by_cases hp : '+' ∈ (trim s).toList
  · rw [hexDecodeChars_signed hp, ← Option.not_isSome_iff_eq_none, tokenChars_isSome]
    intro hpairs
    rw [signedToken, hpairs, Bool.true_and, List.contains_eq_mem] at h
    exact absurd hp (of_decide_eq_false h)
  · exact tokenChars_of_unsigned hp

/-- A token of hex digits is not trimmed. -/
theorem trim_hexEncode (bytes : Bytes) : trim (hexEncode bytes) = hexEncode bytes := by
  have hspace : ∀ c ∈ hexDigits, isWhiteSpace c = false := by
    have hall : hexDigits.all (fun c => !isWhiteSpace c) = true := by decide
    intro c hc
    simpa using List.all_eq_true.mp hall c hc
  have hdrop (cs : List Char) (h : ∀ c ∈ cs, c ∈ hexDigits) : cs.dropWhile isWhiteSpace = cs := by
    cases cs with
    | nil => rfl
    | cons c cs => rw [List.dropWhile_cons, hspace c (h c List.mem_cons_self)]; rfl
  have hdigits : ∀ c ∈ (hexEncode bytes).toList, c ∈ hexDigits := fun c => mem_hexEncode
  unfold trim
  rw [hdrop _ hdigits, hdrop _ (fun c hc => hdigits c (List.mem_reverse.mp hc)), List.reverse_reverse,
    String.ofList_toList]

/-- A token with a sign in it: this decoder takes it, the shared codec does not. -/
theorem signed_disagree {s : String} (h : signedToken (trim s).toList = true) :
    ¬ ∀ token, parseRoutingTokenHex s = some token ↔ hexDecode 32 (trim s) = some token := by
  intro hagree
  obtain ⟨hpairs, hplus⟩ := Bool.and_eq_true_iff.mp h
  have hsome : (tokenChars 32 (trim s).toList).isSome = true := by rw [tokenChars_isSome, hpairs]
  obtain ⟨token, htoken⟩ := Option.isSome_iff_exists.mp hsome
  have hdecoded := (hagree token).mp ((parseRoutingTokenHex_eq s).trans htoken)
  rw [hexDecode, hexDecodeChars_signed (List.contains_iff_mem.mp hplus)] at hdecoded
  exact Option.some_ne_none token hdecoded.symm

/-- The two decoders agree on every string but the tokens that spell a byte with a sign. -/
theorem one_token_decoder_iff (s : String) (bytes : Bytes) :
    ((∀ token, parseRoutingTokenHex s = some token ↔ hexDecode 32 (trim s) = some token) ↔
      signedToken (trim s).toList = false) ∧
    hexDecode bytes.length (hexEncode bytes) = some bytes ∧
    parseRoutingTokenHex (hexEncode bytes) = hexDecode 32 (hexEncode bytes) := by
  refine ⟨?_, ?_, ?_⟩
  · constructor
    · intro h
      rw [Bool.eq_false_iff]
      intro hsigned
      exact signed_disagree hsigned h
    · intro h token
      rw [parseRoutingTokenHex_of_unsigned h]
  · exact hexDecode_hexEncode bytes.length bytes rfl
  · have hunsigned : signedToken (trim (hexEncode bytes)).toList = false := by
      rw [trim_hexEncode, Bool.eq_false_iff]
      intro hsigned
      have hplus := List.contains_iff_mem.mp (Bool.and_eq_true_iff.mp hsigned).2
      exact absurd (mem_hexEncode hplus) (by decide)
    rw [parseRoutingTokenHex_of_unsigned hunsigned, trim_hexEncode]

theorem signed_token_accepted :
    ¬ ∀ token, parseRoutingTokenHex (String.ofList ('+' :: 'f' :: List.replicate 62 '0')) = some token ↔
      hexDecode 32 (trim (String.ofList ('+' :: 'f' :: List.replicate 62 '0'))) = some token := by
  apply signed_disagree
  unfold trim
  rw [String.toList_ofList, String.toList_ofList]
  decide

end CtAgent.Capability
