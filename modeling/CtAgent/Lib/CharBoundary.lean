import CtAgent.Lib.Text

/-! Byte offsets into a string: those between two characters, and the slices they allow. -/
namespace CtAgent.Lib

/-- A byte that continues a character. -/
def isContinuation (b : UInt8) : Bool := 0x80 ≤ b.toNat && b.toNat < 0xC0

/-- `str::is_char_boundary`. -/
def isCharBoundary (bs : Bytes) (i : ℕ) : Bool :=
  i == 0 || i == bs.length || bs[i]?.any (fun b => !isContinuation b)

/-- `&s[i..j]`; the slice panics off a boundary. -/
def charSlice (s : String) (i j : ℕ) : Option String :=
  let bs := utf8 s
  if i ≤ j ∧ isCharBoundary bs i = true ∧ isCharBoundary bs j = true then
    ofUtf8 ((bs.drop i).take (j - i))
  else none

/-- The first byte of a character continues none, and every other one does. -/
theorem utf8EncodeChar_shape (c : Char) :
    ∃ x tail, String.utf8EncodeChar c = x :: tail ∧ isContinuation x = false ∧
      ∀ b ∈ tail, isContinuation b = true := by
  unfold String.utf8EncodeChar isContinuation
  extract_lets v
  -- one case for each number of bytes
  split_ifs with h1 h2 h3
  · refine ⟨_, _, rfl, ?_, by simp⟩
    simp only [UInt8.toNat_ofNat', Bool.and_eq_false_iff, decide_eq_false_iff_not]
    omega
  · refine ⟨_, _, rfl, ?_, ?_⟩
    · simp only [UInt8.toNat_ofNat', Bool.and_eq_false_iff, decide_eq_false_iff_not]
      omega
    · simp only [List.mem_cons, List.not_mem_nil, or_false, forall_eq, UInt8.toNat_ofNat',
        Bool.and_eq_true, decide_eq_true_eq]
      omega
  · refine ⟨_, _, rfl, ?_, ?_⟩
    · simp only [UInt8.toNat_ofNat', Bool.and_eq_false_iff, decide_eq_false_iff_not]
      omega
    · simp only [List.mem_cons, List.not_mem_nil, or_false, forall_eq_or_imp, forall_eq,
        UInt8.toNat_ofNat', Bool.and_eq_true, decide_eq_true_eq]
      omega
  · refine ⟨_, _, rfl, ?_, ?_⟩
    · simp only [UInt8.toNat_ofNat', Bool.and_eq_false_iff, decide_eq_false_iff_not]
      omega
    · simp only [List.mem_cons, List.not_mem_nil, or_false, forall_eq_or_imp, forall_eq,
        UInt8.toNat_ofNat', Bool.and_eq_true, decide_eq_true_eq]
      omega

theorem utf8_ofList_append (xs ys : List Char) :
    utf8 (String.ofList (xs ++ ys)) = utf8 (String.ofList xs) ++ utf8 (String.ofList ys) := by
  simp only [utf8_ofList, List.flatMap_append]

/-- Between two parts of a string there is a boundary. -/
theorem isCharBoundary_append (xs ys : List Char) :
    isCharBoundary (utf8 (String.ofList (xs ++ ys))) (utf8 (String.ofList xs)).length = true := by
  rw [utf8_ofList_append]
  unfold isCharBoundary
  cases ys with
  | nil =>
    have hnil : utf8 (String.ofList []) = [] := by rw [utf8_ofList]; rfl
    rw [hnil, List.append_nil, beq_self_eq_true, Bool.or_true, Bool.true_or]
  | cons c ys =>
    obtain ⟨x, tail, hx, hfirst, -⟩ := utf8EncodeChar_shape c
    have hget : (utf8 (String.ofList xs) ++ utf8 (String.ofList (c :: ys)))[(utf8 (String.ofList xs)).length]?
        = some x := by
      rw [List.getElem?_append_right (le_refl _), Nat.sub_self, utf8_ofList (c :: ys), List.flatMap_cons, hx]
      rfl
    rw [hget, Option.any_some, hfirst]
    simp

/-- Within a character there is none. -/
theorem isCharBoundary_inside {c : Char} (xs ys : List Char) {k : ℕ} (hpos : 0 < k) (hk : k < c.utf8Size) :
    isCharBoundary (utf8 (String.ofList (xs ++ c :: ys))) ((utf8 (String.ofList xs)).length + k) = false := by
  obtain ⟨x, tail, hx, -, htail⟩ := utf8EncodeChar_shape c
  have hsize : tail.length + 1 = c.utf8Size := by
    rw [← String.length_utf8EncodeChar, hx]
    rfl
  have hget : (utf8 (String.ofList (xs ++ c :: ys)))[(utf8 (String.ofList xs)).length + k]?
      = some (tail.get ⟨k - 1, by omega⟩) := by
    rw [utf8_ofList_append, List.getElem?_append_right (Nat.le_add_right _ _), Nat.add_sub_cancel_left,
      utf8_ofList (c :: ys), List.flatMap_cons, hx, List.cons_append]
    obtain ⟨j, rfl⟩ : ∃ j, k = j + 1 := ⟨k - 1, by omega⟩
    rw [List.getElem?_cons_succ, List.getElem?_append_left (by omega)]
    exact List.getElem?_eq_getElem (by omega)
  have hcont := htail _ (List.get_mem tail ⟨k - 1, by omega⟩)
  have hlen : (utf8 (String.ofList xs)).length + k < (utf8 (String.ofList (xs ++ c :: ys))).length :=
    (List.getElem?_eq_some_iff.mp hget).1
  unfold isCharBoundary
  rw [hget, Option.any_some, hcont]
  simp only [Bool.not_true, Bool.or_false, Bool.or_eq_false_iff, beq_eq_false_iff_ne]
  omega

/-- A slice of whole characters is these characters. -/
theorem charSlice_middle (xs ys zs : List Char) :
    charSlice (String.ofList (xs ++ (ys ++ zs))) (utf8 (String.ofList xs)).length
      ((utf8 (String.ofList xs)).length + (utf8 (String.ofList ys)).length) = some (String.ofList ys) := by
  have hstart := isCharBoundary_append xs (ys ++ zs)
  have hend := isCharBoundary_append (xs ++ ys) zs
  rw [List.append_assoc, utf8_ofList_append xs ys, List.length_append] at hend
  unfold charSlice
  rw [if_pos ⟨Nat.le_add_right _ _, hstart, hend⟩, Nat.add_sub_cancel_left, utf8_ofList_append,
    utf8_ofList_append,
    List.drop_left, List.take_left, ofUtf8_utf8]

/-- A slice that ends within a character panics. -/
theorem charSlice_inside {s : String} {i j : ℕ} (h : isCharBoundary (utf8 s) j = false) :
    charSlice s i j = none := by
  unfold charSlice
  apply if_neg
  intro hb
  rw [h] at hb
  exact absurd hb.2.2 (by decide)

end CtAgent.Lib
