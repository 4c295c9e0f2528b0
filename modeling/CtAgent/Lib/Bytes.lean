import Mathlib.Tactic

/-! Machine words as big-endian bytes. -/
namespace CtAgent.Lib

abbrev Bytes := List UInt8

def beBytes32 (w : UInt32) : Bytes :=
  [UInt8.ofNat (w.toNat / 2^24), UInt8.ofNat (w.toNat / 2^16),
    UInt8.ofNat (w.toNat / 2^8), UInt8.ofNat w.toNat]

def ofBeBytes32 (a b c d : UInt8) : UInt32 :=
  UInt32.ofNat (a.toNat * 2^24 + b.toNat * 2^16 + c.toNat * 2^8 + d.toNat)

@[simp] theorem beBytes32_length (w : UInt32) : (beBytes32 w).length = 4 := rfl

theorem ofBeBytes32_beBytes32 (w : UInt32) :
    ofBeBytes32 (UInt8.ofNat (w.toNat / 2^24)) (UInt8.ofNat (w.toNat / 2^16))
      (UInt8.ofNat (w.toNat / 2^8)) (UInt8.ofNat w.toNat) = w := by
  have hw := w.toNat_lt
  apply UInt32.toNat_inj.mp
  simp only [ofBeBytes32, UInt8.toNat_ofNat', UInt32.toNat_ofNat']
  omega

/-- The `k` low bytes of `n`, big-endian: a cast to `8 * k` bits, then `to_be_bytes`. -/
def toBe : ℕ → ℕ → Bytes
  | 0, _ => []
  | k + 1, n => UInt8.ofNat (n / 2^(8*k)) :: toBe k n

/-- One more byte of a big-endian number. -/
def pushBe (v : ℕ) (b : UInt8) : ℕ := v * 2^8 + b.toNat

def ofBe (bs : Bytes) : ℕ := bs.foldl pushBe 0

@[simp] theorem toBe_length (k n : ℕ) : (toBe k n).length = k := by
  induction k with
  | zero => rfl
  | succ k ih => rw [toBe, List.length_cons, ih]

theorem foldl_pushBe_toBe (k n v : ℕ) :
    (toBe k n).foldl pushBe v = v * 2^(8*k) + n % 2^(8*k) := by
  induction k generalizing v with
  | zero => simp [toBe, Nat.mod_one]
  | succ k ih =>
    have hp : 2^(8*(k + 1)) = 2^(8*k) * 2^8 := by rw [← pow_add, Nat.mul_succ]
    have hb : (UInt8.ofNat (n / 2^(8*k))).toNat = n / 2^(8*k) % 2^8 := UInt8.toNat_ofNat'
    calc (toBe (k + 1) n).foldl pushBe v
        = (toBe k n).foldl pushBe (pushBe v (UInt8.ofNat (n / 2^(8*k)))) := rfl
      _ = (v * 2^8 + n / 2^(8*k) % 2^8) * 2^(8*k) + n % 2^(8*k) := by rw [ih, pushBe, hb]
      _ = v * 2^(8*(k + 1)) + n % 2^(8*(k + 1)) := by
        rw [hp, Nat.mod_mul]
        ring

theorem ofBe_toBe (k n : ℕ) : ofBe (toBe k n) = n % 2^(8*k) := by
  rw [ofBe, foldl_pushBe_toBe, Nat.zero_mul, Nat.zero_add]

end CtAgent.Lib
