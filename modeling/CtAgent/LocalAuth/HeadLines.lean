import CtAgent.LocalAuth.Gate

/-! A request head as its lines: where its end is found, and that cutting it gives the lines back. -/
namespace CtAgent.LocalAuth
open CtAgent.Lib CtAgent.Codec CtAgent.Forward

theorem findSubslice_cons (needle : Bytes) (b : UInt8) (rest : Bytes) :
    findSubslice needle (b :: rest) =
      if needle <+: b :: rest then some 0 else (findSubslice needle rest).map (· + 1) := rfl

/-- The first place the needle stands at. -/
theorem findSubslice_eq_some {needle hay : Bytes} {k : ℕ} :
    findSubslice needle hay = some k ↔
      (k ≤ hay.length ∧ needle <+: hay.drop k) ∧ ∀ j < k, ¬ needle <+: hay.drop j := by
  induction hay generalizing k with
  | nil =>
    unfold findSubslice
    split
    · rename_i h
      subst h
      simp only [Option.some.injEq, List.length_nil, Nat.le_zero, List.drop_nil, List.nil_prefix, and_true,
        not_true_eq_false, imp_false, not_lt]
      constructor
      · rintro rfl
        exact ⟨rfl, fun j => Nat.zero_le j⟩
      · exact fun h => h.1.symm
    · rename_i h
      simp [List.prefix_nil, h]
  | cons b rest ih =>
    rw [findSubslice_cons]
    split
    · rename_i h
      constructor
      · intro hk
        obtain rfl := Option.some.inj hk
        exact ⟨⟨Nat.zero_le _, h⟩, fun j hj => absurd hj (Nat.not_lt_zero j)⟩
      · intro hk
        have hzero : k = 0 := by
          by_contra hne
          exact hk.2 0 (Nat.pos_of_ne_zero hne) h
        rw [hzero]
    · rename_i h
      rw [Option.map_eq_some_iff]
      constructor
      · rintro ⟨m, hm, rfl⟩
        obtain ⟨⟨hlen, hat⟩, hbefore⟩ := ih.mp hm
        refine ⟨⟨by simpa using hlen, hat⟩, ?_⟩
        intro j hj
        cases j with
        | zero => exact h
        | succ j => exact hbefore j (by omega)
      · rintro ⟨⟨hlen, hat⟩, hbefore⟩
        cases k with
        | zero => exact absurd hat h
        | succ k =>
          refine ⟨k, ih.mpr ⟨⟨by simpa using hlen, hat⟩, ?_⟩, rfl⟩
          intro j hj
          exact hbefore (j + 1) (by omega)

/-- In the first `m` bytes the needle is found where all of it is in them. -/
theorem findSubslice_take {needle hay : Bytes} {k : ℕ} (h : findSubslice needle hay = some k) (m : ℕ) :
    findSubslice needle (hay.take m) = if k + needle.length ≤ m then some k else none := by
  obtain ⟨⟨hlen, hat⟩, hbefore⟩ := findSubslice_eq_some.mp h
  have hshorter (j : ℕ) (hj : needle <+: (hay.take m).drop j) : needle <+: hay.drop j := by
    rw [List.drop_take] at hj
    exact hj.trans (List.take_prefix _ _)
  split
  · rename_i hfits
    rw [findSubslice_eq_some]
    refine ⟨⟨?_, ?_⟩, fun j hj hjat => hbefore j hj (hshorter j hjat)⟩
    · rw [List.length_take]
      omega
    · rw [List.drop_take]
      obtain ⟨after, hafter⟩ := hat
      rw [← hafter, List.take_append, List.take_of_length_le (by omega)]
      exact List.prefix_append _ _
  · rename_i hcut
    rw [Option.eq_none_iff_forall_not_mem]
    intro j hj
    obtain ⟨⟨hjle, hjat⟩, -⟩ := findSubslice_eq_some.mp hj
    have hjlen := hjat.length_le
    rw [List.length_drop] at hjlen
    rw [List.length_take] at hjle hjlen
    have hfirst : ¬ j < k := fun hlt => hbefore j hlt (hshorter j hjat)
    omega

/-- `[lines].join("\r\n")`. -/
def joinLines : List Bytes → Bytes
  | [] => []
  | [line] => line
  | line :: next :: lines => line ++ 13 :: 10 :: joinLines (next :: lines)

/-- A line of a head: not empty, and no carriage return or newline in it. -/
def IsLine (line : Bytes) : Prop := line ≠ [] ∧ (13 : UInt8) ∉ line ∧ (10 : UInt8) ∉ line

theorem findSubslice_skip {needle : Bytes} {b : UInt8} (hneedle : needle.head? = some b) {line : Bytes}
    (hline : b ∉ line) (rest : Bytes) :
    findSubslice needle (line ++ rest) = (findSubslice needle rest).map (· + line.length) := by
  induction line with
  | nil => simp
  | cons c line ih =>
    have hc : b ≠ c := by
      rintro rfl
      exact hline List.mem_cons_self
    have hnot : ¬ needle <+: c :: (line ++ rest) := by
      intro h
      cases needle with
      | nil => exact absurd hneedle nofun
      | cons x needle =>
        obtain rfl := Option.some.inj hneedle
        exact hc (List.cons_prefix_cons.mp h).1
    rw [List.cons_append, findSubslice_cons, if_neg hnot, ih (fun hm => hline (List.mem_cons_of_mem c hm)),
      Option.map_map]
    rfl

/-- The end of a head is behind its last line. -/
theorem findSubslice_head {lines : List Bytes} (hne : lines ≠ []) (hlines : ∀ line ∈ lines, IsLine line)
    (rest : Bytes) :
    findSubslice [13, 10, 13, 10] (joinLines lines ++ ([13, 10, 13, 10] ++ rest))
      = some (joinLines lines).length := by
  induction lines with
  | nil => exact absurd rfl hne
  | cons line lines ih =>
    have hline := hlines line List.mem_cons_self
    cases lines with
    | nil =>
      rw [joinLines, findSubslice_skip rfl hline.2.1, List.cons_append, findSubslice_cons,
        if_pos (by simp)]
      simp
    | cons next lines =>
      have hnext := hlines next (by simp)
      have htail := ih (List.cons_ne_nil _ _) (fun l hl => hlines l (List.mem_cons_of_mem line hl))
      -- what follows the break does not start with another
      obtain ⟨b, more, hb⟩ := List.exists_cons_of_ne_nil hnext.1
      have hfirst : ∃ tail, joinLines (next :: lines) ++ ([13, 10, 13, 10] ++ rest) = b :: tail := by
        cases lines with
        | nil => exact ⟨_, by rw [joinLines, hb, List.cons_append]⟩
        | cons _ _ => exact ⟨_, by rw [joinLines, hb]; rfl⟩
      obtain ⟨tail, htailEq⟩ := hfirst
      have hb13 : (13 : UInt8) ≠ b := by
        rintro rfl
        exact hnext.2.1 (hb ▸ List.mem_cons_self)
      have hbreak : ¬ ([13, 10, 13, 10] : Bytes) <+: 13 :: 10 :: b :: tail := by
        simp [List.cons_prefix_cons, hb13]
      have hnewline : ¬ ([13, 10, 13, 10] : Bytes) <+: 10 :: b :: tail := by
        simp [List.cons_prefix_cons]
      rw [joinLines, List.append_assoc, findSubslice_skip rfl hline.2.1, List.cons_append, List.cons_append,
        htailEq, findSubslice_cons, if_neg hbreak, findSubslice_cons, if_neg hnewline, ← htailEq, htail]
      simp only [Option.map_some, List.length_append, List.length_cons]
      congr 1
      omega

/-- The same, over the characters. -/
def joinChars : List (List Char) → List Char
  | [] => []
  | [line] => line
  | line :: next :: lines => line ++ '\r' :: '\n' :: joinChars (next :: lines)

theorem splitCrlf_line {line : List Char} (h : '\r' ∉ line) : splitCrlf line = [line] := by
  induction line with
  | nil => rfl
  | cons c line ih =>
    have hc : c ≠ '\r' := by
      rintro rfl
      exact h List.mem_cons_self
    rw [splitCrlf.eq_3 _ _ (fun _ hc' _ => hc hc'), ih (fun hm => h (List.mem_cons_of_mem c hm))]

theorem splitCrlf_cons {line : List Char} (h : '\r' ∉ line) (rest : List Char) :
    splitCrlf (line ++ '\r' :: '\n' :: rest) = line :: splitCrlf rest := by
  induction line with
  | nil => rfl
  | cons c line ih =>
    have hc : c ≠ '\r' := by
      rintro rfl
      exact h List.mem_cons_self
    rw [List.cons_append, splitCrlf.eq_3 _ _ (fun _ hc' _ => hc hc'),
      ih (fun hm => h (List.mem_cons_of_mem c hm))]

/-- Cutting a head gives its lines back. -/
theorem splitCrlf_joinChars {lines : List (List Char)} (hne : lines ≠ [])
    (hlines : ∀ line ∈ lines, '\r' ∉ line) :
    splitCrlf (joinChars lines) = lines := by
  induction lines with
  | nil => exact absurd rfl hne
  | cons line lines ih =>
    have hline := hlines line List.mem_cons_self
    cases lines with
    | nil => exact splitCrlf_line hline
    | cons next lines =>
      have htail := ih (List.cons_ne_nil _ _) (fun l hl => hlines l (List.mem_cons_of_mem line hl))
      rw [joinChars, splitCrlf_cons hline, htail]

theorem utf8_joinChars (lines : List (List Char)) :
    utf8 (String.ofList (joinChars lines)) =
      joinLines (lines.map (fun line => utf8 (String.ofList line))) := by
  induction lines with
  | nil => rw [joinChars, utf8_ofList]; rfl
  | cons line lines ih =>
    cases lines with
    | nil => rfl
    | cons next lines =>
      have hbreak : ∀ cs, ('\r' :: '\n' :: cs).flatMap String.utf8EncodeChar
          = 13 :: 10 :: cs.flatMap String.utf8EncodeChar := fun cs => rfl
      rw [joinChars, utf8_ofList, List.flatMap_append, hbreak, ← utf8_ofList, ← utf8_ofList, ih]
      rfl

theorem eq_nil_of_utf8 {cs : List Char} (h : utf8 (String.ofList cs) = []) : cs = [] := by
  cases cs with
  | nil => rfl
  | cons c cs =>
    have hpos := c.utf8Size_pos
    have hlen := congrArg List.length h
    rw [utf8_ofList, List.flatMap_cons, List.length_append, String.length_utf8EncodeChar, List.length_nil]
      at hlen
    omega

/-- An ASCII byte in a text is a character of it, and cuts it in two texts. -/
theorem utf8_cut {cs : List Char} {a b : Bytes} {c : Char} (hc : c.val.toNat ≤ 0x7f)
    (h : utf8 (String.ofList cs) = a ++ UInt8.ofNat c.val.toNat :: b) :
    ∃ front back, cs = front ++ c :: back ∧ utf8 (String.ofList front) = a ∧
      utf8 (String.ofList back) = b := by
  induction cs generalizing a with
  | nil =>
    rw [utf8_ofList] at h
    exact absurd h (by simp)
  | cons d cs ih =>
    have hd : utf8 (String.ofList (d :: cs)) = String.utf8EncodeChar d ++ utf8 (String.ofList cs) := by
      rw [utf8_ofList, utf8_ofList, List.flatMap_cons]
    rw [hd] at h
    rcases List.append_eq_append_iff.mp h with ⟨a', ha, hrest⟩ | ⟨c', henc, hrest⟩
    · -- the byte is behind this character
      obtain ⟨front, back, hcs, hfront, hback⟩ := ih hrest
      refine ⟨d :: front, back, by rw [hcs, List.cons_append], ?_, hback⟩
      rw [ha, ← hfront, utf8_ofList, utf8_ofList, List.flatMap_cons]
    · cases c' with
      | nil =>
        rw [List.append_nil] at henc
        obtain ⟨front, back, hcs, hfront, hback⟩ := ih (a := []) hrest.symm
        refine ⟨d :: front, back, by rw [hcs, List.cons_append], ?_, hback⟩
        rw [eq_nil_of_utf8 hfront, utf8_ofList, List.flatMap_cons, henc]
        simp
      | cons x c' =>
        -- the byte is one of this character, which is the character itself
        obtain ⟨rfl, hb⟩ := List.cons.inj hrest
        have hmem : UInt8.ofNat c.val.toNat ∈ String.utf8EncodeChar d := by
          rw [henc]
          simp
        have hbyte : (UInt8.ofNat c.val.toNat).toNat = c.val.toNat := by
          rw [UInt8.toNat_ofNat']
          omega
        have hd7 : d.val.toNat ≤ 0x7f := by
          by_contra hhigh
          have hb80 := high_of_mem_utf8EncodeChar (Nat.lt_of_not_le hhigh) hmem
          omega
        rw [utf8EncodeChar_ascii hd7] at henc hmem
        have hsame : c = d := by
          have hn := congrArg UInt8.toNat (List.mem_singleton.mp hmem)
          rw [hbyte, UInt8.toNat_ofNat'] at hn
          apply Char.ext
          apply UInt32.toNat_inj.mp
          omega
        have hlen := congrArg List.length henc
        simp only [List.length_append, List.length_cons, List.length_nil] at hlen
        have ha : a = [] := List.eq_nil_of_length_eq_zero (by omega)
        have hc' : c' = [] := List.eq_nil_of_length_eq_zero (by omega)
        subst hsame ha hc'
        exact ⟨[], cs, rfl, by rw [utf8_ofList]; rfl, hb.symm⟩

theorem mem_utf8_ascii {cs : List Char} {c : Char} (hc : c.val.toNat ≤ 0x7f) :
    UInt8.ofNat c.val.toNat ∈ utf8 (String.ofList cs) ↔ c ∈ cs := by
  constructor
  · intro h
    obtain ⟨a, b, hab⟩ := List.append_of_mem h
    obtain ⟨front, back, rfl, -, -⟩ := utf8_cut hc hab
    simp
  · intro h
    rw [utf8_ofList, List.mem_flatMap]
    exact ⟨c, h, by rw [utf8EncodeChar_ascii hc]; exact List.mem_singleton_self _⟩

theorem utf8_injective {a b : String} (h : utf8 a = utf8 b) : a = b := by
  have ha := ofUtf8_utf8 a
  rw [h, ofUtf8_utf8] at ha
  exact (Option.some.inj ha).symm

/-- A head is a text where every line is one. -/
theorem ofUtf8_joinLines {lines : List Bytes} (hne : lines ≠ []) {text : String}
    (h : ofUtf8 (joinLines lines) = some text) :
    ∃ parts : List (List Char), lines = parts.map (fun line => utf8 (String.ofList line)) ∧
      text.toList = joinChars parts := by
  have hbytes := utf8_of_ofUtf8 h
  rw [← String.ofList_toList (s := text)] at hbytes
  generalize text.toList = cs at hbytes
  clear h text
  induction lines generalizing cs with
  | nil => exact absurd rfl hne
  | cons line lines ih =>
    cases lines with
    | nil => exact ⟨[cs], by rw [List.map_singleton, hbytes]; rfl, rfl⟩
    | cons next lines =>
      rw [joinLines] at hbytes
      obtain ⟨front, back, hcs, hfront, hback⟩ := utf8_cut (c := '\r') (by decide) hbytes
      obtain ⟨front', rest, hback', hnil, hrest⟩ := utf8_cut (c := '\n') (a := []) (by decide) hback
      obtain rfl := eq_nil_of_utf8 hnil
      obtain ⟨parts, hparts, hchars⟩ := ih (List.cons_ne_nil _ _) rest hrest
      refine ⟨front :: parts, by rw [List.map_cons, hfront, hparts], ?_⟩
      cases parts with
      | nil => exact absurd hparts (List.cons_ne_nil _ _)
      | cons p parts =>
        rw [joinChars, ← hchars, hcs, hback']
        rfl

end CtAgent.LocalAuth
