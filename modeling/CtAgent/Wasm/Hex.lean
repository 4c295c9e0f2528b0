import CtAgent.HexSpelling
import CtAgent.Lib.CharBoundary

/-! The hex helpers of the browser crate: a loop over byte offsets, beside the strict shared codec. -/
namespace CtAgent.Wasm
open CtAgent.Lib CtAgent.Codec CtAgent.Capability

/-- `format!("{b:02x}")` for each byte. -/
def toHex (bytes : Bytes) : String :=
  String.ofList (bytes.flatMap (fun b => [hexDigit (b.toNat / 16), hexDigit (b.toNat % 16)]))

/-- `n` steps of two bytes from the offset `i`. No result is the panic of a slice off a boundary. -/
def fromHexLoop (s : String) : ℕ → ℕ → Option (Except String Bytes)
  | 0, _ => some (.ok [])
  | n + 1, i => do
    let pair ← charSlice s i (i + 2)
    match u8FromStrRadix16 pair with
    -- `collect` ends at the first error: no slice after it is taken
    | none => some (.error "invalid hex character")
    | some b =>
      let rest ← fromHexLoop s n (i + 2)
      some (rest.map (b :: ·))

def fromHex (s : String) : Option (Except String Bytes) :=
  let len := (utf8 s).length
  if len % 2 ≠ 0 then some (.error "hex string must have an even length")
  else fromHexLoop s (len / 2) 0

def hex32 (s : String) : Option (Except String Bytes) := do
  match ← fromHex s with
  | .error e => some (.error e)
  | .ok v => if v.length = 32 then some (.ok v) else some (.error "expected 32 bytes (64 hex chars)")

/-- Two characters that the number parser takes for a byte: a digit or a plus sign, then a digit. -/
def isPair (a b : Char) : Bool := (a == '+' || (nibble a).isSome) && (nibble b).isSome

/-- What follows the longest run of such pairs. -/
def afterPairs : List Char → List Char
  | a :: b :: rest => if isPair a b then afterPairs rest else a :: b :: rest
  | cs => cs

/-- The second byte from here lies within a character. -/
def splitsChar : List Char → Bool
  | [] => false
  | [a] => 3 ≤ a.utf8Size
  | a :: b :: _ => 3 ≤ a.utf8Size || (a.utf8Size == 1 && 2 ≤ b.utf8Size)

/-- An even number of bytes, and pairs up to the end with a sign among them, or up to a character
that the next slice would cut. -/
def misread (s : String) : Bool :=
  let rest := afterPairs s.toList
  (utf8 s).length % 2 == 0 && ((rest.isEmpty && s.toList.contains '+') || splitsChar rest)

/-- The same loop over the characters. -/
def readPairs : List Char → Option (Except String Bytes)
  | [] => some (.ok [])
  | [a] => if splitsChar [a] then none else some (.error "invalid hex character")
  | a :: b :: rest =>
    if splitsChar (a :: b :: rest) then none
    else if isPair a b then
      (readPairs rest).map (fun r => r.map ((u8FromStrRadix16 (String.ofList [a, b])).getD 0 :: ·))
    else some (.error "invalid hex character")

theorem utf8Size_of_ascii {c : Char} (h : c.val.toNat ≤ 0x7f) : c.utf8Size = 1 := by
  rw [← String.length_utf8EncodeChar, utf8EncodeChar_ascii h]
  rfl

theorem utf8Size_of_nibble {c : Char} (h : (nibble c).isSome = true) : c.utf8Size = 1 := by
  obtain ⟨d, hd⟩ := Option.isSome_iff_exists.mp h
  exact utf8Size_of_ascii (nibble_lt hd).2

theorem length_utf8_cons (c : Char) (cs : List Char) :
    (utf8 (String.ofList (c :: cs))).length = c.utf8Size + (utf8 (String.ofList cs)).length := by
  simp only [utf8_ofList, List.flatMap_cons, List.length_append, String.length_utf8EncodeChar]

theorem isPair_size {a b : Char} (h : isPair a b = true) : a.utf8Size = 1 ∧ b.utf8Size = 1 := by
  simp only [isPair, Bool.and_eq_true, Bool.or_eq_true, beq_iff_eq] at h
  obtain ⟨ha, hb⟩ := h
  refine ⟨?_, utf8Size_of_nibble hb⟩
  rcases ha with rfl | ha
  · decide
  · exact utf8Size_of_nibble ha

theorem u8FromStrRadix16_isSome (a b : Char) :
    (u8FromStrRadix16 (String.ofList [a, b])).isSome = isPair a b := by
  rw [u8FromStrRadix16_pair, isPair]
  by_cases ha : a = '+'
  · simp [ha]
  · cases nibble a with
    | none => simp [ha]
    | some x => simp [ha]

theorem u8FromStrRadix16_wide {c : Char} (h : c.utf8Size ≠ 1) :
    u8FromStrRadix16 (String.ofList [c]) = none := by
  apply Option.eq_none_iff_forall_not_mem.mpr
  intro v hv
  apply h
  apply utf8Size_of_ascii
  apply u8FromStrRadix16_ascii hv
  simp

/-- One step of the loop, at a boundary: what the next characters make of it. -/
theorem charSlice_splits {xs cs : List Char} (h : splitsChar cs = true) :
    charSlice (String.ofList (xs ++ cs))
      (utf8 (String.ofList xs)).length ((utf8 (String.ofList xs)).length + 2)
      = none := by
  apply charSlice_inside
  match cs, h with
  | [a], h =>
    have ha : 3 ≤ a.utf8Size := of_decide_eq_true h
    exact isCharBoundary_inside xs [] (by omega) (by omega)
  | a :: b :: rest, h =>
    simp only [splitsChar, Bool.or_eq_true, Bool.and_eq_true, decide_eq_true_eq, beq_iff_eq] at h
    rcases h with ha | ⟨ha, hb⟩
    · exact isCharBoundary_inside xs (b :: rest) (by omega) (by omega)
    · -- the first of the two is one byte, so the cut is behind the first byte of the second
      have hcut := isCharBoundary_inside (xs ++ [a]) rest (k := 1) (by omega) hb
      have hlen : (utf8 (String.ofList (xs ++ [a]))).length = (utf8 (String.ofList xs)).length + 1 := by
        rw [utf8_ofList_append, List.length_append, length_utf8_cons, ha]
        rfl
      rw [hlen, List.append_assoc] at hcut
      exact hcut

theorem charSlice_two {xs rest : List Char} {a b : Char} (ha : a.utf8Size = 1) (hb : b.utf8Size = 1) :
    charSlice (String.ofList (xs ++ a :: b :: rest)) (utf8 (String.ofList xs)).length
      ((utf8 (String.ofList xs)).length + 2) = some (String.ofList [a, b]) := by
  have hlen : (utf8 (String.ofList [a, b])).length = 2 := by
    rw [length_utf8_cons, length_utf8_cons, ha, hb]
    rfl
  have h := charSlice_middle xs [a, b] rest
  rw [hlen] at h
  exact h

theorem charSlice_one {xs rest : List Char} {a : Char} (ha : a.utf8Size = 2) :
    charSlice (String.ofList (xs ++ a :: rest)) (utf8 (String.ofList xs)).length
      ((utf8 (String.ofList xs)).length + 2) = some (String.ofList [a]) := by
  have hlen : (utf8 (String.ofList [a])).length = 2 := by
    rw [length_utf8_cons, ha]
    rfl
  have h := charSlice_middle xs [a] rest
  rw [hlen] at h
  exact h

section
variable {s pair : String} {n i : ℕ}

theorem fromHexLoop_panic (h : charSlice s i (i + 2) = none) : fromHexLoop s (n + 1) i = none := by
  rw [fromHexLoop, h]
  rfl

theorem fromHexLoop_error (h : charSlice s i (i + 2) = some pair) (hv : u8FromStrRadix16 pair = none) :
    fromHexLoop s (n + 1) i = some (.error "invalid hex character") := by
  simp only [fromHexLoop, h, hv, Option.bind_eq_bind, Option.bind_some]

theorem fromHexLoop_value {v : UInt8} (h : charSlice s i (i + 2) = some pair)
    (hv : u8FromStrRadix16 pair = some v) :
    fromHexLoop s (n + 1) i = (fromHexLoop s n (i + 2)).map (fun r => r.map (v :: ·)) := by
  simp only [fromHexLoop, h, hv, Option.bind_eq_bind, Option.bind_some]
  cases fromHexLoop s n (i + 2) with
  | none => rfl
  | some r => rfl

end

/-- The loop from a boundary reads the characters that follow it. -/
theorem fromHexLoop_eq (n : ℕ) (xs cs : List Char) (h : (utf8 (String.ofList cs)).length = 2 * n) :
    fromHexLoop (String.ofList (xs ++ cs)) n (utf8 (String.ofList xs)).length = readPairs cs := by
  induction n generalizing xs cs with
  | zero =>
    cases cs with
    | nil => rfl
    | cons a cs =>
      have hpos := a.utf8Size_pos
      rw [length_utf8_cons] at h
      omega
  | succ n ih =>
    by_cases hs : splitsChar cs = true
    · rw [fromHexLoop_panic (charSlice_splits hs)]
      match cs, hs with
      | [a], hs => rw [readPairs, if_pos hs]
      | a :: b :: rest, hs => rw [readPairs, if_pos hs]
    · match cs, hs with
      | [], _ =>
        have hzero : 0 = 2 * (n + 1) := h
        omega
      | [a], hs =>
        have hlt : ¬ 3 ≤ a.utf8Size := fun h3 => hs (decide_eq_true h3)
        have hlen : a.utf8Size = 2 * (n + 1) := by
          rw [length_utf8_cons] at h
          exact h
        have ha : a.utf8Size = 2 := by omega
        rw [readPairs, if_neg hs]
        apply fromHexLoop_error (charSlice_one ha)
        apply u8FromStrRadix16_wide
        omega
      | a :: b :: rest, hs =>
        rw [readPairs, if_neg hs]
        simp only [splitsChar, Bool.or_eq_true, Bool.and_eq_true, decide_eq_true_eq, beq_iff_eq, not_or,
          not_and] at hs
        have hpos := a.utf8Size_pos
        by_cases ha : a.utf8Size = 1
        · have hbpos := b.utf8Size_pos
          have hb : b.utf8Size = 1 := by
            have hb2 := hs.2 ha
            omega
          have hsome := u8FromStrRadix16_isSome a b
          cases hv : u8FromStrRadix16 (String.ofList [a, b]) with
          | none =>
            rw [hv] at hsome
            rw [← hsome]
            exact fromHexLoop_error (charSlice_two ha hb) hv
          | some v =>
            rw [hv] at hsome
            rw [← hsome]
            have hrest : (utf8 (String.ofList rest)).length = 2 * n := by
              rw [length_utf8_cons, length_utf8_cons, ha, hb] at h
              omega
            have hnext := ih (xs ++ [a, b]) rest hrest
            have hoffset : (utf8 (String.ofList (xs ++ [a, b]))).length
                = (utf8 (String.ofList xs)).length + 2 := by
              rw [utf8_ofList_append, List.length_append, length_utf8_cons, length_utf8_cons, ha, hb]
              rfl
            rw [hoffset, List.append_assoc] at hnext
            rw [fromHexLoop_value (charSlice_two ha hb) hv]
            exact congrArg (Option.map (fun r => r.map (v :: ·))) hnext
        · -- a character of two bytes is a charSlice of its own, and no digit
          have hpair : isPair a b = false := by
            apply Bool.eq_false_iff.mpr
            intro hp
            exact ha (isPair_size hp).1
          have ha2 : a.utf8Size = 2 := by omega
          rw [hpair]
          exact fromHexLoop_error (charSlice_one ha2) (u8FromStrRadix16_wide ha)

theorem fromHex_eq {s : String} (h : (utf8 s).length % 2 = 0) : fromHex s = readPairs s.toList := by
  have hs : String.ofList s.toList = s := String.ofList_toList
  have hloop := fromHexLoop_eq ((utf8 s).length / 2) [] s.toList (by rw [hs]; omega)
  rw [List.nil_append, hs] at hloop
  unfold fromHex
  rw [if_neg (not_not.mpr h)]
  exact hloop

theorem splitsChar_pair {a b : Char} (rest : List Char) (h : isPair a b = true) :
    splitsChar (a :: b :: rest) = false := by
  obtain ⟨ha, hb⟩ := isPair_size h
  simp [splitsChar, ha, hb]

/-- Where the next slice would cut a character, the loop gets there and panics. -/
theorem readPairs_panic {cs : List Char} (h : splitsChar (afterPairs cs) = true) : readPairs cs = none := by
  fun_induction afterPairs cs with
  | case1 a b rest hp ih =>
    rw [readPairs, splitsChar_pair rest hp, if_neg (by decide), if_pos hp, ih h]
    rfl
  | case2 a b rest hp => rw [readPairs, if_pos h]
  | case3 cs hne =>
    match cs, hne with
    | [a], _ => rw [readPairs, if_pos h]
    | a :: b :: rest, hne => exact absurd rfl (hne a b rest)

/-- Where it reaches another character that starts no pair, it ends with an error. -/
theorem readPairs_error {cs : List Char} (h : splitsChar (afterPairs cs) = false) (hne : afterPairs cs ≠ []) :
    readPairs cs = some (.error "invalid hex character") := by
  fun_induction afterPairs cs with
  | case1 a b rest hp ih =>
    rw [readPairs, splitsChar_pair rest hp, if_neg (by decide), if_pos hp, ih h hne]
    rfl
  | case2 a b rest hp => rw [readPairs, h, if_neg (by decide), if_neg hp]
  | case3 cs hcons =>
    match cs, hcons with
    | [], _ => exact absurd rfl hne
    | [a], _ => rw [readPairs, h, if_neg (by decide)]
    | a :: b :: rest, hcons => exact absurd rfl (hcons a b rest)

/-- What spells a byte string is all pairs, without a sign. -/
theorem afterPairs_of_spells {cs : List Char} {bytes : Bytes} (h : HexSpells cs bytes) :
    afterPairs cs = [] ∧ '+' ∉ cs := by
  induction bytes generalizing cs with
  | nil =>
    have hnil : cs = [] := List.map_eq_nil_iff.mp h
    subst hnil
    exact ⟨rfl, List.not_mem_nil⟩
  | cons x bytes ih =>
    have hlen := congrArg List.length h
    match cs with
    | [] => exact absurd hlen (by simp)
    | [a] => exact absurd hlen (by simp)
    | a :: b :: rest =>
      obtain ⟨ha, hb, hrest⟩ := spells_cons.mp h
      obtain ⟨hpairs, hplus⟩ := ih hrest
      constructor
      · rw [afterPairs, if_pos (by simp [isPair, ha, hb]), hpairs]
      · intro hm
        rcases List.mem_cons.mp hm with rfl | hm
        · exact absurd ha nofun
        · rcases List.mem_cons.mp hm with rfl | hm
          · exact absurd hb nofun
          · exact hplus hm

theorem pair_value {a b : Char} (h : isPair a b = true) (ha : a ≠ '+') :
    ∃ v, u8FromStrRadix16 (String.ofList [a, b]) = some v ∧
      nibble a = some (v.toNat / 16) ∧ nibble b = some (v.toNat % 16) := by
  simp only [isPair, Bool.and_eq_true, Bool.or_eq_true, beq_iff_eq] at h
  obtain ⟨x, hx⟩ := Option.isSome_iff_exists.mp (h.1.resolve_left ha)
  obtain ⟨y, hy⟩ := Option.isSome_iff_exists.mp h.2
  have hx16 := (nibble_lt hx).1
  have hy16 := (nibble_lt hy).1
  have hvalue : (UInt8.ofNat (x * 16 + y)).toNat = x * 16 + y := by
    rw [UInt8.toNat_ofNat']
    omega
  refine ⟨UInt8.ofNat (x * 16 + y), ?_, ?_, ?_⟩
  · rw [u8FromStrRadix16_pair, if_neg ha, hx, hy]
    rfl
  · rw [hx, hvalue, show (x * 16 + y) / 16 = x by omega]
  · rw [hy, hvalue, show (x * 16 + y) % 16 = y by omega]

/-- Where all of it is pairs, the loop gives bytes; without a sign, those that the digits spell. -/
theorem readPairs_ok {cs : List Char} (h : afterPairs cs = []) :
    ∃ v, readPairs cs = some (.ok v) ∧ ('+' ∉ cs → HexSpells cs v) := by
  fun_induction afterPairs cs with
  | case1 a b rest hp ih =>
    obtain ⟨v, hv, hspell⟩ := ih h
    rw [readPairs, splitsChar_pair rest hp, if_neg (by decide), if_pos hp, hv]
    refine ⟨_, rfl, ?_⟩
    intro hplus
    have ha : a ≠ '+' := by
      rintro rfl
      exact hplus List.mem_cons_self
    obtain ⟨x, hx, hax, hbx⟩ := pair_value hp ha
    have hrest : '+' ∉ rest := fun hm => hplus (List.mem_cons_of_mem a (List.mem_cons_of_mem b hm))
    rw [hx]
    exact spells_cons.mpr ⟨hax, hbx, hspell hrest⟩
  | case2 a b rest hp => exact absurd h (List.cons_ne_nil _ _)
  | case3 cs hne =>
    subst h
    exact ⟨[], rfl, fun _ => rfl⟩

theorem even_of_spells {s : String} {bytes : Bytes} (h : HexSpells s.toList bytes) :
    (utf8 s).length % 2 = 0 := by
  have hdigits : ∀ c ∈ s.toList, c.utf8Size = 1 := by
    intro c hc
    exact utf8Size_of_nibble (nibble_of_spells h c hc)
  have hlen (cs : List Char) (hcs : ∀ c ∈ cs, c.utf8Size = 1) :
      (utf8 (String.ofList cs)).length = cs.length := by
    induction cs with
    | nil => rfl
    | cons c cs ih =>
      rw [length_utf8_cons, hcs c List.mem_cons_self, ih (fun d hd => hcs d (List.mem_cons_of_mem c hd)),
        List.length_cons, Nat.add_comm]
  have hs := hlen s.toList hdigits
  rw [String.ofList_toList, length_of_spells h] at hs
  omega

/-- What the browser's decoder makes of a string, and whether it may. -/
theorem fromHex_cases (s : String) :
    (misread s = false ∧ ∃ r, fromHex s = some r ∧ ∀ bytes, r = .ok bytes ↔ HexSpells s.toList bytes) ∨
    (misread s = true ∧ (fromHex s = none ∨
      ∃ v, fromHex s = some (.ok v) ∧ ∀ bytes, ¬ HexSpells s.toList bytes)) := by
  by_cases heven : (utf8 s).length % 2 = 0
  · have hmis : misread s = ((afterPairs s.toList).isEmpty && s.toList.contains '+'
        || splitsChar (afterPairs s.toList)) := by
      unfold misread
      rw [heven, beq_self_eq_true, Bool.true_and]
    rw [fromHex_eq heven, hmis]
    by_cases hpairs : afterPairs s.toList = []
    · obtain ⟨v, hv, hspell⟩ := readPairs_ok hpairs
      rw [hpairs]
      by_cases hplus : '+' ∈ s.toList
      · right
        refine ⟨by simp [hplus], Or.inr ⟨v, hv, ?_⟩⟩
        intro bytes hb
        exact (afterPairs_of_spells hb).2 hplus
      · left
        refine ⟨by simp [hplus, splitsChar], _, hv, ?_⟩
        intro bytes
        rw [Except.ok.injEq]
        constructor
        · rintro rfl
          exact hspell hplus
        · exact spells_unique (hspell hplus)
    · have hempty : (afterPairs s.toList).isEmpty = false := by simpa using hpairs
      rw [hempty, Bool.false_and, Bool.false_or]
      cases hsplit : splitsChar (afterPairs s.toList) with
      | true => exact Or.inr ⟨rfl, Or.inl (readPairs_panic hsplit)⟩
      | false =>
        refine Or.inl ⟨rfl, _, readPairs_error hsplit hpairs, ?_⟩
        intro bytes
        constructor
        · intro h
          exact absurd h nofun
        · intro h
          exact absurd (afterPairs_of_spells h).1 hpairs
  · left
    refine ⟨?_, .error "hex string must have an even length", ?_, ?_⟩
    · unfold misread
      simp [heven]
    · unfold fromHex
      exact if_pos heven
    · intro bytes
      constructor
      · intro h
        exact absurd h nofun
      · intro h
        exact absurd (even_of_spells h) heven

/-- Either case of a digit reads back what was written. -/
theorem fromHex_toHex (bytes : Bytes) : fromHex (toHex bytes) = some (.ok bytes) := by
  have hspell : HexSpells (toHex bytes).toList bytes := spells_hexEncode bytes
  rcases fromHex_cases (toHex bytes) with ⟨-, r, hr, hiff⟩ | ⟨hmis, -⟩
  · rw [hr, (hiff bytes).mpr hspell]
  · obtain ⟨hpairs, hplus⟩ := afterPairs_of_spells hspell
    unfold misread at hmis
    simp [hpairs, hplus, splitsChar] at hmis

theorem hex32_of_fromHex {s : String} {r : Except String Bytes} (h : fromHex s = some r) (key : Bytes) :
    hex32 s = some (.ok key) ↔ r = .ok key ∧ key.length = 32 := by
  unfold hex32
  rw [h]
  cases r with
  | error e => simp
  | ok v =>
    simp only [Option.bind_eq_bind, Option.bind_some, Except.ok.injEq]
    split
    · rename_i hlen
      rw [Option.some.injEq, Except.ok.injEq]
      constructor
      · rintro rfl
        exact ⟨rfl, hlen⟩
      · intro hk
        exact hk.1
    · rename_i hlen
      constructor
      · intro hk
        exact absurd hk nofun
      · rintro ⟨rfl, hk⟩
        exact absurd hk hlen

/-- The browser's decoder takes exactly hex, and its keys are those of the shared codec, on every
string but those of sign-spelled bytes and those with a character across a step of the loop. -/
theorem browser_hex_exact_iff (s : String) (bytes : Bytes) :
    ((fromHex s ≠ none ∧ (∀ v, fromHex s = some (.ok v) ↔ HexSpells s.toList v) ∧
      (∀ key, hex32 s = some (.ok key) ↔ hexDecode 32 s = some key)) ↔ misread s = false) ∧
    fromHex (toHex bytes) = some (.ok bytes) := by
  refine ⟨?_, fromHex_toHex bytes⟩
  rcases fromHex_cases s with ⟨hmis, r, hr, hiff⟩ | ⟨hmis, hbad⟩
  · simp only [hmis, iff_true]
    refine ⟨by rw [hr]; exact Option.some_ne_none r, ?_, ?_⟩
    · intro v
      rw [hr, Option.some.injEq]
      exact hiff v
    · intro key
      rw [hex32_of_fromHex hr, hiff key, hexDecode, hexDecodeChars_iff_spells, and_comm]
  · rw [hmis]
    refine iff_of_false ?_ (by decide)
    intro h
    obtain ⟨hsome, hexact, -⟩ := h
    rcases hbad with hnone | ⟨v, hv, hno⟩
    · exact hsome hnone
    · exact hno v ((hexact v).mp hv)

/-- A sign is read as a digit, and a character behind an odd number of bytes is cut by a slice. -/
theorem browser_hex_inexact :
    (¬ ∀ s, fromHex s ≠ none ∧ ∀ v, fromHex s = some (.ok v) ↔ HexSpells s.toList v) ∧
    fromHex "+f" = some (.ok [15]) ∧ (∀ v, ¬ HexSpells "+f".toList v) ∧ fromHex "00aé0" = none := by
  have hsigned : fromHex "+f" = some (.ok [15]) := by decide
  have hcut : fromHex "00aé0" = none := by decide
  refine ⟨?_, hsigned, ?_, hcut⟩
  · intro h
    exact (h _).1 hcut
  · intro v h
    exact (afterPairs_of_spells h).2 (by decide)

end CtAgent.Wasm
