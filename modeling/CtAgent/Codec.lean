import CtAgent.Lib.Bytes
import CtAgent.Lib.Text

/-! The agent's small encodings: hex, base64url and the constant-time comparison. -/
namespace CtAgent.Codec
open CtAgent.Lib

def hexDigits : List Char := "0123456789abcdef".toList

def hexDigit (n : ℕ) : Char := hexDigits.getD n '0'

/-- Lowercase hex. -/
def hexEncode (bytes : Bytes) : String :=
  String.ofList (bytes.flatMap (fun b => [hexDigit (b.toNat / 16), hexDigit (b.toNat % 16)]))

/-- `char::to_digit(16)`. -/
def nibble (c : Char) : Option ℕ :=
  if '0' ≤ c ∧ c ≤ '9' then some (c.toNat - 48)
  else if 'a' ≤ c ∧ c ≤ 'f' then some (c.toNat - 87)
  else if 'A' ≤ c ∧ c ≤ 'F' then some (c.toNat - 55)
  else none

def hexDecodeChars : ℕ → List Char → Option Bytes
  | 0, [] => some []
  | n + 1, a :: b :: rest => do
    let x ← nibble a
    let y ← nibble b
    let bs ← hexDecodeChars n rest
    return UInt8.ofNat (x * 16 + y) :: bs
  | _, _ => none

/-- Exactly `2 * n` hex digits, either case, into `n` bytes. -/
def hexDecode (n : ℕ) (s : String) : Option Bytes := hexDecodeChars n s.toList

/-- Equality without an early exit; a length mismatch returns at once. -/
def ctEq (a b : Bytes) : Bool :=
  if a.length ≠ b.length then false
  else ((a.zip b).foldl (fun acc xy => acc ||| (xy.1 ^^^ xy.2)) 0) == 0

def base64Alphabet : List Char :=
  "ABCDEFGHIJKLMNOPQRSTUVWXYZabcdefghijklmnopqrstuvwxyz0123456789-_".toList

def base64Char (n : ℕ) : Char := base64Alphabet.getD (n % 64) 'A'

def base64Chars : Bytes → List Char
  | a :: b :: c :: rest =>
    base64Char (a.toNat / 4) :: base64Char (a.toNat * 16 + b.toNat / 16) ::
      base64Char (b.toNat * 4 + c.toNat / 64) :: base64Char c.toNat :: base64Chars rest
  | [a, b] => [base64Char (a.toNat / 4), base64Char (a.toNat * 16 + b.toNat / 16), base64Char (b.toNat * 4)]
  | [a] => [base64Char (a.toNat / 4), base64Char (a.toNat * 16)]
  | [] => []

/-- RFC 4648 base64url without padding. -/
def base64url (bytes : Bytes) : String := String.ofList (base64Chars bytes)

theorem hexDigit_mem (n : ℕ) : hexDigit n ∈ hexDigits := by
  unfold hexDigit
  rw [List.getD_eq_getElem?_getD]
  cases h : hexDigits[n]? with
  | none => decide
  | some c => exact List.mem_of_getElem? h

theorem mem_hexEncode {bytes : Bytes} {c : Char} (h : c ∈ (hexEncode bytes).toList) :
    c ∈ hexDigits := by
  simp only [hexEncode, String.toList_ofList, List.mem_flatMap] at h
  obtain ⟨b, -, hc⟩ := h
  rcases List.mem_pair.mp hc with rfl | rfl <;> exact hexDigit_mem _

theorem nibble_hexDigit (n : ℕ) (h : n < 16) : nibble (hexDigit n) = some n := by
  interval_cases n <;> decide

theorem hexDecode_hexEncode (n : ℕ) (bytes : Bytes) (h : bytes.length = n) :
    hexDecode n (hexEncode bytes) = some bytes := by
  simp only [hexDecode, hexEncode, String.toList_ofList]
  induction bytes generalizing n with
  | nil =>
    subst h
    rfl
  | cons b bytes ih =>
    subst h
    have hb := b.toNat_lt
    have h1 := nibble_hexDigit (b.toNat / 16) (by omega)
    have h2 := nibble_hexDigit (b.toNat % 16) (by omega)
    have hv : UInt8.ofNat (b.toNat / 16 * 16 + b.toNat % 16) = b := by
      rw [show b.toNat / 16 * 16 + b.toNat % 16 = b.toNat by omega]
      exact UInt8.ofNat_toNat
    simp only [List.flatMap_cons, List.cons_append, List.nil_append, List.length_cons,
      hexDecodeChars, h1, h2, ih bytes.length rfl, Option.bind_eq_bind, Option.bind_some,
      Option.pure_def, hv]

theorem hexEncode_injOn {a b : Bytes} (hl : a.length = b.length) (h : hexEncode a = hexEncode b) :
    a = b := by
  have ha := hexDecode_hexEncode a.length a rfl
  have hb := hexDecode_hexEncode a.length b hl.symm
  rw [h, hb] at ha
  exact (Option.some.inj ha).symm

theorem foldl_xor_eq_zero (xys : List (UInt8 × UInt8)) (acc : UInt8) :
    xys.foldl (fun acc xy => acc ||| (xy.1 ^^^ xy.2)) acc = 0 ↔
      acc = 0 ∧ ∀ xy ∈ xys, xy.1 = xy.2 := by
  induction xys generalizing acc with
  | nil => simp
  | cons xy xys ih =>
    simp only [List.foldl_cons, ih, UInt8.or_eq_zero_iff, UInt8.xor_eq_zero_iff, List.mem_cons,
      forall_eq_or_imp, and_assoc]

theorem ctEq_iff (a b : Bytes) : ctEq a b = true ↔ a = b := by
  unfold ctEq
  split
  · rename_i hl
    simp only [Bool.false_eq_true, false_iff]
    intro h
    exact hl (congrArg List.length h)
  · rename_i hl
    rw [beq_iff_eq, foldl_xor_eq_zero]
    simp only [true_and]
    constructor
    · intro h
      apply List.ext_getElem (not_not.mp hl)
      intro i h1 h2
      exact h (a[i], b[i]) (List.mem_iff_getElem.mpr ⟨i, by simp [h1, h2], by simp⟩)
    · rintro rfl xy hxy
      obtain ⟨i, hi, rfl⟩ := List.mem_iff_getElem.mp hxy
      simp

def isTokenChar (c : Char) : Bool := c.isAlphanum || c == '-' || c == '_'

theorem base64Char_token (n : ℕ) : isTokenChar (base64Char n) = true ∧ (base64Char n).utf8Size = 1 := by
  have h : n % 64 < 64 := Nat.mod_lt n (by decide)
  unfold base64Char
  generalize n % 64 = m at h
  interval_cases m <;> decide

theorem base64Chars_all (bytes : Bytes) :
    ∀ c ∈ base64Chars bytes, isTokenChar c = true ∧ c.utf8Size = 1 := by
  fun_induction base64Chars bytes with
  | case1 a b c rest ih =>
    intro x hx
    simp only [List.mem_cons] at hx
    rcases hx with rfl | rfl | rfl | rfl | hx
    · exact base64Char_token _
    · exact base64Char_token _
    · exact base64Char_token _
    · exact base64Char_token _
    · exact ih x hx
  | case2 a b => simp [base64Char_token]
  | case3 a => simp [base64Char_token]
  | case4 => simp

theorem base64Chars_length_le (bytes : Bytes) :
    bytes.length ≤ (base64Chars bytes).length ∧ (base64Chars bytes).length ≤ 2 * bytes.length := by
  fun_induction base64Chars bytes with
  | case1 a b c rest ih =>
    simp only [List.length_cons]
    omega
  | case2 a b => simp
  | case3 a => simp
  | case4 => simp

end CtAgent.Codec
