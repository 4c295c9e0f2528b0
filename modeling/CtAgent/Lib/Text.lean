import CtAgent.Lib.Bytes

/-! Strings as the sequences of characters a `&str` is. -/
namespace CtAgent.Lib

/-- `str::as_bytes`. -/
def utf8 (s : String) : Bytes := s.toUTF8.data.toList

/-- `String::from_utf8`. -/
def ofUtf8 (bs : Bytes) : Option String := String.fromUTF8? ⟨bs.toArray⟩

@[simp] theorem ofUtf8_utf8 (s : String) : ofUtf8 (utf8 s) = some s := by
  have h : (⟨(utf8 s).toArray⟩ : ByteArray) = s.toByteArray := by simp [utf8]
  unfold ofUtf8 String.fromUTF8?
  rw [h, dif_pos s.isValidUTF8]
  rfl

theorem utf8_of_ofUtf8 {bs : Bytes} {s : String} (h : ofUtf8 bs = some s) : utf8 s = bs := by
  unfold ofUtf8 String.fromUTF8? at h
  split at h
  · cases h
    simp [utf8, String.fromUTF8]
  · cases h

theorem utf8_ofList (cs : List Char) : utf8 (String.ofList cs) = cs.flatMap String.utf8EncodeChar := by
  simp [utf8, List.utf8Encode]

theorem high_of_mem_utf8EncodeChar {c : Char} (hc : 0x7f < c.val.toNat) {b : UInt8}
    (hb : b ∈ String.utf8EncodeChar c) : 0x80 ≤ b.toNat := by
  unfold String.utf8EncodeChar at hb
  rw [if_neg (Nat.not_le.mpr hc)] at hb
  split_ifs at hb
  · simp only [List.mem_cons, List.not_mem_nil, or_false] at hb
    rcases hb with rfl | rfl <;> rw [UInt8.toNat_ofNat'] <;> omega
  · simp only [List.mem_cons, List.not_mem_nil, or_false] at hb
    rcases hb with rfl | rfl | rfl <;> rw [UInt8.toNat_ofNat'] <;> omega
  · simp only [List.mem_cons, List.not_mem_nil, or_false] at hb
    rcases hb with rfl | rfl | rfl | rfl <;> rw [UInt8.toNat_ofNat'] <;> omega

theorem utf8EncodeChar_ascii {c : Char} (hc : c.val.toNat ≤ 0x7f) :
    String.utf8EncodeChar c = [UInt8.ofNat c.val.toNat] := by
  unfold String.utf8EncodeChar
  rw [if_pos hc]

/-- The newline byte is no part of another character. -/
theorem newline_of_mem_utf8EncodeChar {c : Char} (h : (10 : UInt8) ∈ String.utf8EncodeChar c) :
    c = '\n' := by
  by_cases hc : c.val.toNat ≤ 0x7f
  · rw [utf8EncodeChar_ascii hc, List.mem_singleton] at h
    have hn := congrArg UInt8.toNat h
    rw [UInt8.toNat_ofNat'] at hn
    have h10 : (10 : UInt8).toNat = 10 := rfl
    apply Char.ext
    apply UInt32.toNat_inj.mp
    change c.val.toNat = 10
    omega
  · have hb := high_of_mem_utf8EncodeChar (Nat.lt_of_not_le hc) h
    exact absurd hb (by decide)

theorem newline_notMem_utf8 {cs : List Char} (h : '\n' ∉ cs) : (10 : UInt8) ∉ utf8 (String.ofList cs) := by
  rw [utf8_ofList, List.mem_flatMap]
  rintro ⟨c, hc, hb⟩
  exact h (newline_of_mem_utf8EncodeChar hb ▸ hc)

/-- The byte length of a string, `str::len`. -/
def strLen (s : String) : ℕ := (s.toList.map Char.utf8Size).sum

/-- The Unicode `White_Space` characters, which `str::trim` removes. -/
def isWhiteSpace (c : Char) : Bool :=
  let n := c.toNat
  (9 ≤ n && n ≤ 13) || n == 32 || n == 0x85 || n == 0xA0 || n == 0x1680 ||
    (0x2000 ≤ n && n ≤ 0x200A) || n == 0x2028 || n == 0x2029 || n == 0x202F || n == 0x205F || n == 0x3000

/-- The general category `Cc`, `char::is_control`. -/
def isControl (c : Char) : Bool := c.toNat < 0x20 || (0x7F ≤ c.toNat && c.toNat ≤ 0x9F)

def trim (s : String) : String :=
  String.ofList (((s.toList.dropWhile isWhiteSpace).reverse.dropWhile isWhiteSpace).reverse)

/-- `str::lines`: cut at `\n` or `\r\n`; a last line may go without, and is no line where empty. -/
def lines (s : String) : List String :=
  let parts := s.toList.splitOn '\n'
  let stripCr := fun l : List Char => if l.getLast? = some '\r' then l.dropLast else l
  let last := parts.getLastD []
  ((parts.dropLast.map stripCr) ++ (if last = [] then [] else [last])).map String.ofList

end CtAgent.Lib
