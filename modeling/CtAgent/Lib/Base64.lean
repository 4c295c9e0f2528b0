import CtAgent.Lib.Bytes
import Mathlib.Tactic.IntervalCases

/-! The base64 of the standard alphabet, with padding: three bytes as four digits of six bits. -/
namespace CtAgent.Lib.Base64

def alphabet : List Char := "ABCDEFGHIJKLMNOPQRSTUVWXYZabcdefghijklmnopqrstuvwxyz0123456789+/".toList

def digit (n : ℕ) : Char := alphabet.getD n 'A'

def value (c : Char) : Option ℕ := alphabet.idxOf? c

def encodeChars : Bytes → List Char
  | [] => []
  | [a] => [digit (a.toNat / 4), digit (a.toNat % 4 * 16), '=', '=']
  | [a, b] => [digit (a.toNat / 4), digit (a.toNat % 4 * 16 + b.toNat / 16), digit (b.toNat % 16 * 4), '=']
  | a :: b :: c :: rest =>
    digit (a.toNat / 4) :: digit (a.toNat % 4 * 16 + b.toNat / 16) ::
      digit (b.toNat % 16 * 4 + c.toNat / 64) :: digit (c.toNat % 64) :: encodeChars rest

/-- Padding and the bits behind the last byte are as `encodeChars` writes them, or there is no result. -/
def decodeChars : List Char → Option Bytes
  | [] => some []
  | a :: b :: c :: d :: rest => do
    let x ← value a
    let y ← value b
    if c = '=' then
      if d = '=' ∧ rest = [] ∧ y % 16 = 0 then some [UInt8.ofNat (x * 4 + y / 16)] else none
    else do
      let z ← value c
      if d = '=' then
        if rest = [] ∧ z % 4 = 0 then some [UInt8.ofNat (x * 4 + y / 16), UInt8.ofNat (y % 16 * 16 + z / 4)]
        else none
      else do
        let w ← value d
        let bytes ← decodeChars rest
        some (UInt8.ofNat (x * 4 + y / 16) :: UInt8.ofNat (y % 16 * 16 + z / 4) ::
          UInt8.ofNat (z % 4 * 64 + w) :: bytes)
  | _ => none

def encode (bytes : Bytes) : String := String.ofList (encodeChars bytes)

def decode (s : String) : Option Bytes := decodeChars s.toList

/-- A digit has its value, and is neither padding nor anything but a letter, a figure, `+` or `/`. -/
theorem value_digit {n : ℕ} (h : n < 64) : value (digit n) = some n ∧ digit n ≠ '=' := by
  interval_cases n <;> decide

theorem ofNat_of_eq {v : ℕ} {b : UInt8} (h : v = b.toNat) : UInt8.ofNat v = b := by
  rw [h]
  exact UInt8.ofNat_toNat

theorem decodeChars_encodeChars (bytes : Bytes) : decodeChars (encodeChars bytes) = some bytes := by
  fun_induction encodeChars bytes with
  | case1 => rfl
  | case2 a =>
    have ha := a.toNat_lt
    have h1 := value_digit (n := a.toNat / 4) (by omega)
    have h2 := value_digit (n := a.toNat % 4 * 16) (by omega)
    have hbyte : UInt8.ofNat (a.toNat / 4 * 4 + a.toNat % 4 * 16 / 16) = a := ofNat_of_eq (by omega)
    have hpad : a.toNat % 4 * 16 % 16 = 0 := by omega
    simp only [decodeChars, h1.1, h2.1, Option.bind_eq_bind, Option.bind_some, if_true, hpad, and_self, hbyte]
  | case3 a b =>
    have ha := a.toNat_lt
    have hb := b.toNat_lt
    have h1 := value_digit (n := a.toNat / 4) (by omega)
    have h2 := value_digit (n := a.toNat % 4 * 16 + b.toNat / 16) (by omega)
    have h3 := value_digit (n := b.toNat % 16 * 4) (by omega)
    have hfirst : UInt8.ofNat (a.toNat / 4 * 4 + (a.toNat % 4 * 16 + b.toNat / 16) / 16) = a :=
      ofNat_of_eq (by omega)
    have hsecond : UInt8.ofNat ((a.toNat % 4 * 16 + b.toNat / 16) % 16 * 16 + b.toNat % 16 * 4 / 4) = b :=
      ofNat_of_eq (by omega)
    have hpad : b.toNat % 16 * 4 % 4 = 0 := by omega
    simp only [decodeChars, h1.1, h2.1, h3.1, h3.2, Option.bind_eq_bind, Option.bind_some, if_true, if_false,
      hpad, and_self, hfirst, hsecond]
  | case4 a b c rest ih =>
    have ha := a.toNat_lt
    have hb := b.toNat_lt
    have hc := c.toNat_lt
    have h1 := value_digit (n := a.toNat / 4) (by omega)
    have h2 := value_digit (n := a.toNat % 4 * 16 + b.toNat / 16) (by omega)
    have h3 := value_digit (n := b.toNat % 16 * 4 + c.toNat / 64) (by omega)
    have h4 := value_digit (n := c.toNat % 64) (by omega)
    have hfirst : UInt8.ofNat (a.toNat / 4 * 4 + (a.toNat % 4 * 16 + b.toNat / 16) / 16) = a :=
      ofNat_of_eq (by omega)
    have hsecond : UInt8.ofNat ((a.toNat % 4 * 16 + b.toNat / 16) % 16 * 16
        + (b.toNat % 16 * 4 + c.toNat / 64) / 4) = b := ofNat_of_eq (by omega)
    have hthird : UInt8.ofNat ((b.toNat % 16 * 4 + c.toNat / 64) % 4 * 64 + c.toNat % 64) = c :=
      ofNat_of_eq (by omega)
    simp only [decodeChars, h1.1, h2.1, h3.1, h3.2, h4.1, h4.2, ih, Option.bind_eq_bind, Option.bind_some,
      if_false, hfirst, hsecond, hthird]

/-- What was encoded is decoded. -/
theorem decode_encode (bytes : Bytes) : decode (encode bytes) = some bytes := by
  unfold decode encode
  rw [String.toList_ofList]
  exact decodeChars_encodeChars bytes

theorem encode_ne_empty {bytes : Bytes} (h : bytes ≠ []) : (encode bytes).toList ≠ [] := by
  unfold encode
  rw [String.toList_ofList]
  fun_cases encodeChars bytes with
  | case1 => exact absurd rfl h
  | case2 => exact List.cons_ne_nil _ _
  | case3 => exact List.cons_ne_nil _ _
  | case4 => exact List.cons_ne_nil _ _

theorem digit_mem (n : ℕ) : digit n ∈ alphabet := by
  unfold digit
  rw [List.getD_eq_getElem?_getD]
  cases h : alphabet[n]? with
  | none => decide
  | some c => exact List.mem_of_getElem? h

/-- Everything in a base64 text is a digit or padding. -/
theorem mem_encode {bytes : Bytes} {c : Char} (h : c ∈ (encode bytes).toList) : c ∈ '=' :: alphabet := by
  unfold encode at h
  rw [String.toList_ofList] at h
  have hdigit (n : ℕ) : digit n ∈ '=' :: alphabet := List.mem_cons_of_mem _ (digit_mem n)
  fun_induction encodeChars bytes with
  | case1 => exact absurd h List.not_mem_nil
  | case2 a =>
    simp only [List.mem_cons, List.not_mem_nil, or_false] at h
    rcases h with rfl | rfl | rfl | rfl
    · exact hdigit _
    · exact hdigit _
    · exact List.mem_cons_self
    · exact List.mem_cons_self
  | case3 a b =>
    simp only [List.mem_cons, List.not_mem_nil, or_false] at h
    rcases h with rfl | rfl | rfl | rfl
    · exact hdigit _
    · exact hdigit _
    · exact hdigit _
    · exact List.mem_cons_self
  | case4 a b c' rest ih =>
    rcases List.mem_cons.mp h with rfl | h
    · exact hdigit _
    rcases List.mem_cons.mp h with rfl | h
    · exact hdigit _
    rcases List.mem_cons.mp h with rfl | h
    · exact hdigit _
    rcases List.mem_cons.mp h with rfl | h
    · exact hdigit _
    · exact ih h

end CtAgent.Lib.Base64
