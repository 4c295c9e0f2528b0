import CtAgent.Lib.Text

/-! UTF-8 read lossily, and where UTF-8 may be cut. -/
namespace CtAgent.Lib

def isCont (b : UInt8) : Bool := 0x80 ≤ b && b ≤ 0xBF

/-- The second byte that may follow a first byte of a sequence of three or four. -/
def isSecond (first second : UInt8) : Bool :=
  if first = 0xE0 then 0xA0 ≤ second && second ≤ 0xBF
  else if first = 0xED then 0x80 ≤ second && second ≤ 0x9F
  else if first = 0xF0 then 0x90 ≤ second && second ≤ 0xBF
  else if first = 0xF4 then 0x80 ≤ second && second ≤ 0x8F
  else isCont second

/-- How many bytes one replacement character stands for, where no character starts: as much of a
sequence as could still have been one. -/
def badLength : Bytes → ℕ
  | first :: second :: rest =>
    if 0xE0 ≤ first && first ≤ 0xF4 && isSecond first second then
      if 0xF0 ≤ first && (rest.head?).any isCont then 3 else 2
    else 1
  | _ => 1

def replacement : Char := Char.ofNat 0xFFFD

def lossyChars : (fuel : ℕ) → Bytes → List Char
  | 0, _ => []
  | _, [] => []
  | fuel + 1, bytes =>
    match (⟨bytes.toArray⟩ : ByteArray).utf8DecodeChar? 0 with
    | some c => c :: lossyChars fuel (bytes.drop c.utf8Size)
    | none => replacement :: lossyChars fuel (bytes.drop (badLength bytes))

/-- `String::from_utf8_lossy`. -/
def fromUtf8Lossy (bytes : Bytes) : String := String.ofList (lossyChars bytes.length bytes)

theorem utf8_append (s t : String) : utf8 (s ++ t) = utf8 s ++ utf8 t := by
  simp [utf8]

theorem utf8_eq_flatMap (s : String) : utf8 s = s.toList.flatMap String.utf8EncodeChar := by
  rw [← utf8_ofList, String.ofList_toList]

theorem decode_encode_append (c : Char) (rest : Bytes) :
    (⟨(String.utf8EncodeChar c ++ rest).toArray⟩ : ByteArray).utf8DecodeChar? 0 = some c := by
  have happend : (⟨(String.utf8EncodeChar c ++ rest).toArray⟩ : ByteArray) =
      (String.utf8EncodeChar c).toByteArray ++ rest.toByteArray := by
    apply ByteArray.ext
    simp
  rw [happend]
  exact ByteArray.utf8DecodeChar?_utf8EncodeChar_append

/-- Text is read as it is. -/
theorem lossyChars_encode (cs : List Char) (fuel : ℕ)
    (hfuel : (cs.flatMap String.utf8EncodeChar).length ≤ fuel) :
    lossyChars fuel (cs.flatMap String.utf8EncodeChar) = cs := by
  induction cs generalizing fuel with
  | nil => cases fuel <;> rfl
  | cons c cs ih =>
    rw [List.flatMap_cons] at hfuel ⊢
    rw [List.length_append, String.length_utf8EncodeChar] at hfuel
    have hpos : 0 < c.utf8Size := c.utf8Size_pos
    have hdecode := decode_encode_append c (cs.flatMap String.utf8EncodeChar)
    have hdrop : (String.utf8EncodeChar c ++ cs.flatMap String.utf8EncodeChar).drop c.utf8Size =
        cs.flatMap String.utf8EncodeChar := by
      rw [← String.length_utf8EncodeChar c, List.drop_left]
    cases fuel with
    | zero => omega
    | succ fuel =>
      have hrest : lossyChars fuel (cs.flatMap String.utf8EncodeChar) = cs := ih fuel (by omega)
      have hne : String.utf8EncodeChar c ++ cs.flatMap String.utf8EncodeChar ≠ [] := by
        intro hnil
        have hlen := congrArg List.length hnil
        rw [List.length_append, String.length_utf8EncodeChar, List.length_nil] at hlen
        omega
      generalize String.utf8EncodeChar c ++ cs.flatMap String.utf8EncodeChar = bytes at hdecode hdrop hne
      cases bytes with
      | nil => exact absurd rfl hne
      | cons b bytes =>
        simp only [lossyChars, hdecode, hdrop, hrest]

theorem fromUtf8Lossy_utf8 (s : String) : fromUtf8Lossy (utf8 s) = s := by
  unfold fromUtf8Lossy
  rw [utf8_eq_flatMap, lossyChars_encode _ _ (le_refl _), String.ofList_toList]

/-- Bytes that are text. -/
def IsText (bytes : Bytes) : Prop := ∃ s, bytes = utf8 s

theorem IsText.append {bytes bytes' : Bytes} (h : IsText bytes) (h' : IsText bytes') :
    IsText (bytes ++ bytes') := by
  obtain ⟨s, hs⟩ := h
  obtain ⟨t, ht⟩ := h'
  exact ⟨s ++ t, by rw [utf8_append, hs, ht]⟩

def isAscii (b : UInt8) : Bool := b < 0x80

theorem isText_flatMap (cs : List Char) : IsText (cs.flatMap String.utf8EncodeChar) :=
  ⟨String.ofList cs, (utf8_ofList cs).symm⟩

theorem isText_encode (c : Char) : IsText (String.utf8EncodeChar c) := by
  have h := isText_flatMap [c]
  rwa [List.flatMap_cons, List.flatMap_nil, List.append_nil] at h

theorem isText_nil : IsText [] := isText_flatMap []

/-- No byte of a character of several bytes is ASCII. -/
theorem not_ascii_of_split {c : Char} {front mid : Bytes} (h : String.utf8EncodeChar c = front ++ mid)
    (hfront : front ≠ []) (hmid : mid ≠ []) : ∀ b ∈ front ++ mid, isAscii b = false := by
  intro b hb
  rw [← h] at hb
  by_cases hc : c.val.toNat ≤ 0x7f
  · rw [utf8EncodeChar_ascii hc] at h
    have hlen := congrArg List.length h
    rw [List.length_append, List.length_singleton] at hlen
    have hf := List.length_pos_iff.mpr hfront
    have hm := List.length_pos_iff.mpr hmid
    omega
  · have hhigh := high_of_mem_utf8EncodeChar (Nat.lt_of_not_le hc) hb
    have hnot : ¬ b < 0x80 := by
      rw [UInt8.lt_iff_toNat_lt]
      have h80 : (0x80 : UInt8).toNat = 0x80 := rfl
      omega
    exact decide_eq_false hnot

/-- Text cut beside an ASCII byte is text on both sides. -/
theorem isText_cut {front back : Bytes} (h : IsText (front ++ back))
    (hcut : back = [] ∨ (front.getLast?).any isAscii = true ∨ (back.head?).any isAscii = true) :
    IsText front ∧ IsText back := by
  obtain ⟨s, hs⟩ := h
  rw [utf8_eq_flatMap] at hs
  generalize s.toList = cs at hs
  induction cs generalizing front with
  | nil =>
    obtain ⟨hfront, hback⟩ := List.append_eq_nil_iff.mp hs
    rw [hfront, hback]
    exact ⟨isText_nil, isText_nil⟩
  | cons c cs ih =>
    rw [List.flatMap_cons] at hs
    rcases List.append_eq_append_iff.mp hs with ⟨mid, hmid, hback⟩ | ⟨mid, hfront, hrest⟩
    · by_cases hfnil : front = []
      · rw [hfnil, List.nil_append] at hs
        rw [hfnil, hs]
        exact ⟨isText_nil, (isText_encode c).append (isText_flatMap cs)⟩
      by_cases hmnil : mid = []
      · rw [hmnil, List.append_nil] at hmid
        rw [hmnil, List.nil_append] at hback
        rw [← hmid, hback]
        exact ⟨isText_encode c, isText_flatMap cs⟩
      -- the cut is inside a character, which has several bytes then
      have hhigh := not_ascii_of_split hmid hfnil hmnil
      rcases hcut with hnil | hlast | hhead
      · rw [hnil] at hback
        exact absurd (List.append_eq_nil_iff.mp hback.symm).1 hmnil
      · cases hl : front.getLast? with
        | none => simp [hl] at hlast
        | some b =>
          have hb : b ∈ front ++ mid := List.mem_append_left _ (List.mem_of_getLast? hl)
          simp [hl, hhigh b hb] at hlast
      · cases hm : mid with
        | nil => exact absurd hm hmnil
        | cons b mid' =>
          have hb : b ∈ front ++ mid := by simp [hm]
          simp [hback, hm, hhigh b hb] at hhead
    · have hmore : IsText mid ∧ IsText back := by
        by_cases hmnil : mid = []
        · rw [hmnil, List.nil_append] at hrest
          rw [hmnil, ← hrest]
          exact ⟨isText_nil, isText_flatMap cs⟩
        · apply ih ?_ hrest.symm
          rwa [hfront, List.getLast?_append_of_ne_nil _ hmnil] at hcut
      rw [hfront]
      exact ⟨(isText_encode c).append hmore.1, hmore.2⟩

end CtAgent.Lib
