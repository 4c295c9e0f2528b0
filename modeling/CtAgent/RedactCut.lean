import CtAgent.RedactRest
import CtAgent.RedactText

/-! Keys in a text and in the same text cut short by a mask: where the mask stands for a value it is
matched again, and no key is matched that was not matched before. -/
namespace CtAgent.Redact
open CtAgent.Lib

/-! Keywords. -/

theorem keyword_lower : ∀ kw ∈ keywords, (utf8 kw).map toAsciiLower = utf8 kw := by decide

theorem keyword_four : ∀ kw ∈ keywords, ∀ kw' ∈ keywords, (utf8 kw).take 4 = (utf8 kw').take 4 → kw = kw' := by
  decide

theorem keyword_length : ∀ kw ∈ keywords, 5 ≤ (utf8 kw).length := by decide

/-- A keyword at the start of a text, in any case. -/
def StartsWith (kw : String) (s : Bytes) : Prop :=
  (utf8 kw).length ≤ s.length ∧ (s.take (utf8 kw).length).map toAsciiLower = utf8 kw

section
variable {s o : Bytes} {d p q k : ℕ} {kw : String} {bearer : Bool} {prev prev' : Option UInt8}

theorem startsWith_iff (hkw : kw ∈ keywords) :
    StartsWith kw s ↔ (utf8 kw).length ≤ s.length ∧
      eqIgnoreAsciiCase (slice s 0 (utf8 kw).length) (utf8 kw) = true := by
  unfold StartsWith eqIgnoreAsciiCase slice
  rw [List.drop_zero, Nat.sub_zero, beq_iff_eq, keyword_lower kw hkw]

theorem keywordAt_zero (h : keywordAt s 0 = some (p, bearer)) :
    ∃ kw ∈ keywords, p = (utf8 kw).length ∧ bearer = (kw == "bearer") ∧ StartsWith kw s := by
  obtain ⟨kw, hmem, hp, hlen, heq, hb⟩ := keywordAt_some h
  rw [Nat.zero_add] at hp
  subst hp
  exact ⟨kw, hmem, rfl, hb, (startsWith_iff hmem).mpr ⟨hlen, heq⟩⟩

/-- The first four letters tell which keyword it is. -/
theorem StartsWith.unique {kw' : String} (hkw : kw ∈ keywords) (hkw' : kw' ∈ keywords)
    (h : StartsWith kw s) (h' : StartsWith kw' s) : kw = kw' := by
  have hfour {w : String} (hw : w ∈ keywords) (hs : StartsWith w s) :
      (utf8 w).take 4 = (s.take 4).map toAsciiLower := by
    have hlen := keyword_length w hw
    rw [← hs.2, ← List.map_take, List.take_take, Nat.min_eq_left (by omega)]
  exact keyword_four kw hkw kw' hkw' ((hfour hkw h).trans (hfour hkw' h').symm)

theorem keywordAt_of_startsWith (hkw : kw ∈ keywords) (h : StartsWith kw s) :
    keywordAt s 0 = some ((utf8 kw).length, kw == "bearer") := by
  cases hk : keywordAt s 0 with
  | none =>
    unfold keywordAt at hk
    have hnone := List.findSome?_eq_none_iff.mp hk kw hkw
    obtain ⟨hlen, heq⟩ := (startsWith_iff hkw).mp h
    simp [hlen, heq] at hnone
  | some r =>
    obtain ⟨p, bearer⟩ := r
    obtain ⟨kw', hkw', rfl, rfl, h'⟩ := keywordAt_zero hk
    rw [h.unique hkw hkw' h']

/-! A text that was cut short by a mask at `d`: up to there it is the same, then a bracket stands for
the first byte of a word. -/

structure Cut (d : ℕ) (s o : Bytes) : Prop where
  same : ∀ j < d, s[j]? = o[j]?
  bracket : o[d]? = some (byte '[')
  first : (s[d]?).any (fun c => !isWs c) = true

theorem Cut.take (h : Cut d s o) (hk : k ≤ d) : s.take k = o.take k := by
  apply List.ext_getElem?
  intro j
  rw [List.getElem?_take, List.getElem?_take]
  split
  · exact h.same j (by omega)
  · rfl

theorem Cut.length (h : Cut d s o) : d < s.length ∧ d < o.length := by
  constructor
  · by_contra hlt
    have hfirst := h.first
    rw [List.getElem?_eq_none (Nat.le_of_not_lt hlt)] at hfirst
    cases hfirst
  · by_contra hlt
    have hbracket := h.bracket
    rw [List.getElem?_eq_none (Nat.le_of_not_lt hlt)] at hbracket
    cases hbracket

theorem Cut.not_ws (h : Cut d s o) : (s[d]?).any isWs = false := by
  have hfirst := h.first
  cases hs : s[d]? with
  | none => rfl
  | some c =>
    rw [hs] at hfirst
    simpa using hfirst

/-- A run that stops in front of the cut stops there in both texts. -/
theorem Cut.run {pred : UInt8 → Bool} (h : Cut d s o) (hq : q < d) :
    skipWhile pred s p = q ↔ skipWhile pred o p = q := by
  constructor
  · intro hs
    have hrun := maxRun_skipWhile pred s p
    rw [hs] at hrun
    refine (MaxRun.eq_skipWhile ⟨hrun.le, fun j hp hj => ?_, ?_⟩).symm
    · rw [← h.same j (by omega)]
      exact hrun.all j hp hj
    · rw [← h.same q hq]
      exact hrun.stops
  · intro ho
    have hrun := maxRun_skipWhile pred o p
    rw [ho] at hrun
    refine (MaxRun.eq_skipWhile ⟨hrun.le, fun j hp hj => ?_, ?_⟩).symm
    · rw [h.same j (by omega)]
      exact hrun.all j hp hj
    · rw [h.same q hq]
      exact hrun.stops

/-- No run of the masked text goes behind the cut. -/
theorem Cut.run_le {pred : UInt8 → Bool} (h : Cut d s o) (hpred : pred (byte '[') = false) (hp : p ≤ d) :
    skipWhile pred o p ≤ d := by
  by_contra hlt
  have hall := (maxRun_skipWhile pred o p).all d hp (Nat.lt_of_not_le hlt)
  rw [h.bracket, Option.any_some, hpred] at hall
  cases hall

/-- Whitespace up to the cut, in both texts. -/
theorem Cut.ws (h : Cut d s o) : skipWhile isWs s p = d ↔ skipWhile isWs o p = d := by
  have hb : isWs (byte '[') = false := by decide
  constructor
  · intro hs
    have hrun := maxRun_skipWhile isWs s p
    rw [hs] at hrun
    refine (MaxRun.eq_skipWhile ⟨hrun.le, fun j hp hj => ?_, ?_⟩).symm
    · rw [← h.same j hj]
      exact hrun.all j hp hj
    · rw [h.bracket, Option.any_some, hb]
  · intro ho
    have hrun := maxRun_skipWhile isWs o p
    rw [ho] at hrun
    refine (MaxRun.eq_skipWhile ⟨hrun.le, fun j hp hj => ?_, h.not_ws⟩).symm
    rw [h.same j hj]
    exact hrun.all j hp hj

theorem bracket_notMem : ∀ kw ∈ keywords, byte '[' ∉ utf8 kw := by decide

/-- A keyword of the masked text stands in front of the cut. -/
theorem Cut.startsWith_le (h : Cut d s o) (hkw : kw ∈ keywords) (ho : StartsWith kw o) :
    (utf8 kw).length ≤ d := by
  by_contra hlt
  have hd : d < (utf8 kw).length := Nat.lt_of_not_le hlt
  have hmem : byte '[' ∈ utf8 kw := by
    rw [← ho.2]
    apply List.mem_map.mpr
    refine ⟨byte '[', ?_, by decide⟩
    apply List.mem_of_getElem? (i := d)
    rw [List.getElem?_take, if_pos hd, h.bracket]
  exact bracket_notMem kw hkw hmem

theorem Cut.startsWith (h : Cut d s o) (hk : (utf8 kw).length ≤ d) : StartsWith kw s ↔ StartsWith kw o := by
  have hlen := h.length
  unfold StartsWith
  rw [h.take hk]
  constructor
  · intro hs
    exact ⟨by omega, hs.2⟩
  · intro ho
    exact ⟨by omega, ho.2⟩

/-! Keys and their values. -/

theorem valueStart_cases {a start : ℕ} (h : valueStart s a bearer = some start) :
    ∃ m, skipWhile isWs s a = m ∧
      (((s[m]?).any isSeparator = true ∧ skipWhile isWs s (m + 1) = start) ∨
        ((s[m]?).any isSeparator = false ∧ bearer = true ∧ a < m ∧ start = m)) := by
  refine ⟨_, rfl, ?_⟩
  unfold valueStart at h
  dsimp only at h
  split at h
  · next hsep => exact .inl ⟨hsep, Option.some.inj h⟩
  · next hsep =>
    split at h
    · next hbare =>
      rw [Bool.and_eq_true, decide_eq_true_eq] at hbare
      rw [Bool.not_eq_true] at hsep
      exact .inr ⟨hsep, hbare.1, hbare.2, (Option.some.inj h).symm⟩
    · cases h

theorem valueStart_sep {a m start : ℕ} (hm : skipWhile isWs s a = m) (hsep : (s[m]?).any isSeparator = true)
    (hstart : skipWhile isWs s (m + 1) = start) : valueStart s a bearer = some start := by
  unfold valueStart
  simp only [hm, hsep, if_true, hstart]

theorem valueStart_bare {a m : ℕ} (hm : skipWhile isWs s a = m) (hsep : (s[m]?).any isSeparator = false)
    (hlt : a < m) : valueStart s a true = some m := by
  unfold valueStart
  simp only [hm, hsep, Bool.false_eq_true, if_false, hlt, decide_true, Bool.and_self, if_true]

theorem valueEnd_first {v e : ℕ} (h : valueEnd s v = some e) : (s[v]?).any (fun c => !isWs c) = true := by
  obtain ⟨hlt, hrun⟩ := valueEnd_some h
  exact hrun.all v (Nat.le_refl v) hlt

theorem valueEnd_ne_none {v : ℕ} (h : (s[v]?).any (fun c => !isWs c) = true) : valueEnd s v ≠ none := by
  unfold valueEnd
  dsimp only
  rw [if_pos]
  · simp
  · rcases Nat.eq_or_lt_of_le (le_skipWhile (fun c => !isWs c) s v) with heq | hlt
    · have hstop := (maxRun_skipWhile (fun c => !isWs c) s v).stops
      rw [← heq, h] at hstop
      cases hstop
    · exact hlt

theorem maskedValue_first {v : ℕ} {r : ℕ × ℕ} (h : maskedValue s v = some r) :
    (s[v]?).any (fun c => !isWs c) = true := by
  unfold maskedValue at h
  cases he : valueEnd s v with
  | none =>
    rw [he] at h
    cases h
  | some e => exact valueEnd_first he

theorem maskedValue_ne_none {v : ℕ} (h : (s[v]?).any (fun c => !isWs c) = true) :
    maskedValue s v ≠ none := by
  unfold maskedValue
  cases he : valueEnd s v with
  | none => exact absurd he (valueEnd_ne_none h)
  | some e =>
    dsimp only
    split <;> simp

theorem redactKeywordValue_parts {r : ℕ × ℕ} (h : redactKeywordValue s 0 = some r) :
    ∃ kw ∈ keywords, ∃ start, StartsWith kw s ∧
      valueStart s (keyEnd s (utf8 kw).length (kw == "bearer")) (kw == "bearer") = some start ∧
      maskedValue s start = some r := by
  unfold redactKeywordValue at h
  cases hk : keywordAt s 0 with
  | none =>
    rw [hk] at h
    cases h
  | some f =>
    obtain ⟨p, bearer⟩ := f
    obtain ⟨kw, hkw, rfl, rfl, hs⟩ := keywordAt_zero hk
    rw [hk] at h
    dsimp only at h
    split at h
    · cases h
    · next start hstart => exact ⟨kw, hkw, start, hs, hstart, h⟩

theorem redactKeywordValue_of_parts {start : ℕ} (hkw : kw ∈ keywords) (hs : StartsWith kw s)
    (hstart : valueStart s (keyEnd s (utf8 kw).length (kw == "bearer")) (kw == "bearer") = some start) :
    redactKeywordValue s 0 = maskedValue s start := by
  unfold redactKeywordValue
  rw [keywordAt_of_startsWith hkw hs]
  dsimp only
  rw [hstart]

theorem le_keyEnd (s : Bytes) (p : ℕ) (bearer : Bool) : p ≤ keyEnd s p bearer := by
  unfold keyEnd
  split
  · exact Nat.le_refl p
  · have hle := le_skipWhile isIdent s p
    dsimp only
    split <;> omega

/-- The key is the same where it ends in front of the cut. -/
theorem Cut.keyEnd_eq (h : Cut d s o) (hlt : keyEnd s p bearer < d ∨ keyEnd o p bearer < d ∨ bearer = true) :
    keyEnd s p bearer = keyEnd o p bearer := by
  cases bearer with
  | true => rfl
  | false =>
    have hsuffix (t : Bytes) : skipWhile isIdent t p ≤ keyEnd t p false := by
      unfold keyEnd
      simp only [Bool.false_eq_true, if_false]
      split <;> omega
    have hsame : ∀ q < d, skipWhile isIdent s p = q → skipWhile isIdent o p = q →
        keyEnd s p false = keyEnd o p false := by
      intro q hq hs ho
      unfold keyEnd
      simp only [Bool.false_eq_true, if_false, hs, ho, h.same q hq]
    rcases hlt with hlt | hlt | hb
    · have hq := Nat.lt_of_le_of_lt (hsuffix s) hlt
      exact hsame _ hq rfl ((h.run hq).mp rfl)
    · have hq := Nat.lt_of_le_of_lt (hsuffix o) hlt
      exact hsame _ hq ((h.run hq).mpr rfl) rfl
    · cases hb

/-- A value found in the masked text is found in the text too, unless a separator was masked that
stood behind the word `Bearer`. -/
theorem Cut.value_of_masked (h : Cut d s o) (ho : redactKeywordValue o 0 ≠ none) :
    redactKeywordValue s 0 ≠ none ∨
      ((s[d]?).any isSeparator = true ∧ StartsWith "bearer" s ∧
        skipWhile isWs s (utf8 "bearer").length = d) := by
  obtain ⟨r, hr⟩ := Option.ne_none_iff_exists'.mp ho
  obtain ⟨kw, hkw, start, hso, hstart, hmask⟩ := redactKeywordValue_parts hr
  have hp := h.startsWith_le hkw hso
  have hs := (h.startsWith hp).mpr hso
  have hfirst := maskedValue_first hmask
  obtain ⟨m, hm, hcases⟩ := valueStart_cases hstart
  have hws : isWs (byte '[') = false := by decide
  have hsepb : isSeparator (byte '[') = false := by decide
  have hae := le_keyEnd o (utf8 kw).length (kw == "bearer")
  have ham := le_skipWhile isWs o (keyEnd o (utf8 kw).length (kw == "bearer"))
  -- a word at the cut or in front of it is a word of both texts
  have hword : start ≤ d → (s[start]?).any (fun c => !isWs c) = true := by
    intro hle
    rcases Nat.eq_or_lt_of_le hle with heq | hlt
    · rw [heq]
      exact h.first
    · rw [h.same start hlt]
      exact hfirst
  rcases hcases with ⟨hsep, hnext⟩ | ⟨hsep, hb, halt, hsm⟩
  · -- the separator is in front of the cut, and so is the key
    have hmd : m < d := by
      by_contra hge
      rcases Nat.eq_or_lt_of_le (Nat.le_of_not_lt hge) with heq | hlt
      · rw [← heq, h.bracket, Option.any_some, hsepb] at hsep
        cases hsep
      · by_cases had : keyEnd o (utf8 kw).length (kw == "bearer") ≤ d
        · have hle := h.run_le hws had
          omega
        · -- a key with its quote ends at the cut at the latest
          have hk : keyEnd o (utf8 kw).length (kw == "bearer") ≤ d := by
            unfold keyEnd
            split
            · exact hp
            · have hi := h.run_le (show isIdent (byte '[') = false by decide) hp
              dsimp only
              split
              · next hq =>
                rcases Nat.eq_or_lt_of_le hi with heq | hlt'
                · rw [heq, h.bracket, Option.any_some] at hq
                  exact absurd hq (by decide)
                · omega
              · exact hi
          exact had hk
    have hkey : keyEnd s (utf8 kw).length (kw == "bearer") = keyEnd o (utf8 kw).length (kw == "bearer") :=
      h.keyEnd_eq (.inr (.inl (by omega)))
    have hmS : skipWhile isWs s (keyEnd s (utf8 kw).length (kw == "bearer")) = m := by
      rw [hkey]
      exact (h.run hmd).mpr hm
    have hle : start ≤ d := by
      rw [← hnext]
      exact h.run_le hws hmd
    have hnextS : skipWhile isWs s (m + 1) = start := by
      rcases Nat.eq_or_lt_of_le hle with heq | hlt
      · rw [heq] at hnext ⊢
        exact h.ws.mpr hnext
      · exact (h.run hlt).mpr hnext
    left
    rw [redactKeywordValue_of_parts hkw hs (valueStart_sep hmS (by rw [h.same m hmd]; exact hsep) hnextS)]
    exact maskedValue_ne_none (hword hle)
  · obtain rfl : kw = "bearer" := by simpa using hb
    have hmd : m ≤ d := by
      rw [← hm]
      exact h.run_le hws hp
    rcases Nat.eq_or_lt_of_le hmd with heq | hlt
    · -- the word is the masked one
      have hrun : skipWhile isWs s (utf8 "bearer").length = d := h.ws.mpr (by rw [← heq]; exact hm)
      cases hsd : (s[d]?).any isSeparator with
      | true => exact .inr ⟨rfl, hs, hrun⟩
      | false =>
        left
        have hbare : valueStart s (keyEnd s (utf8 "bearer").length true) true = some d :=
          valueStart_bare hrun hsd (by rw [← heq]; exact halt)
        rw [redactKeywordValue_of_parts hkw hs hbare]
        exact maskedValue_ne_none h.first
    · left
      have hrun : skipWhile isWs s (utf8 "bearer").length = m := (h.run hlt).mpr hm
      have hbare : valueStart s (keyEnd s (utf8 "bearer").length true) true = some m :=
        valueStart_bare hrun (by rw [h.same m hlt]; exact hsep) halt
      rw [redactKeywordValue_of_parts hkw hs hbare]
      apply maskedValue_ne_none
      rw [← hsm]
      exact hword (by omega)

/-- The mask, up to whitespace or the end, is one word. -/
theorem mask_word {z : Bytes} (ho : o.drop d = maskText ++ z)
    (hz : z = [] ∨ (z.head?).any isWs = true) : valueEnd o d = some (d + 10) := by
  have hmask : maskText.all (fun c => !isWs c) = true := by decide
  have hget (j : ℕ) : o[d + j]? = (maskText ++ z)[j]? := by rw [← ho, List.getElem?_drop]
  have hrun : MaxRun (fun c => !isWs c) o d (d + 10) := by
    refine ⟨by omega, fun j hj hlt => ?_, ?_⟩
    · obtain ⟨k, rfl⟩ := Nat.exists_eq_add_of_le hj
      have hk : k < maskText.length := by
        have h10 : maskText.length = 10 := rfl
        omega
      rw [hget, List.getElem?_append_left hk, List.getElem?_eq_getElem hk, Option.any_some]
      exact List.all_eq_true.mp hmask _ (List.getElem_mem hk)
    · have h10 : maskText.length = 10 := rfl
      rw [hget, List.getElem?_append_right (Nat.le_of_eq h10), h10, Nat.sub_self]
      rcases hz with rfl | hz
      · rfl
      · cases z with
        | nil => cases hz
        | cons c z => simpa using hz
  exact valueEnd_word ⟨by omega, hrun⟩

/-- What stands behind the kept part of a matched key is the mask once more. -/
theorem Cut.value_again (h : Cut d s o) {n : ℕ} (hs : redactKeywordValue s 0 = some (d, n)) {z : Bytes}
    (ho : o.drop d = maskText ++ z) (hz : z = [] ∨ (z.head?).any isWs = true) :
    redactKeywordValue o 0 = some (d, d + 10) := by
  obtain ⟨kw, hkw, start, hss, hstart, hmask⟩ := redactKeywordValue_parts hs
  have hvalue := mask_word ho hz
  have hlen := h.length
  have hws : isWs (byte '[') = false := by decide
  have hsepb : isSeparator (byte '[') = false := by decide
  obtain ⟨m, hm, hcases⟩ := valueStart_cases hstart
  have hpa := le_keyEnd s (utf8 kw).length (kw == "bearer")
  have ham := le_skipWhile isWs s (keyEnd s (utf8 kw).length (kw == "bearer"))
  have hsm : m ≤ start := by
    rcases hcases with ⟨-, hnext⟩ | ⟨-, -, -, hsm⟩
    · have hle := le_skipWhile isWs s (m + 1)
      omega
    · exact Nat.le_of_eq hsm.symm
  -- the value starts in front of the mask, at a scheme word, or is the mask
  have hmasked : start ≤ d ∧ maskedValue o start = some (d, d + 10) := by
    have hwhole : start = d → maskedValue o start = some (d, d + 10) := by
      intro heq
      have hword : slice o d (d + 10) = maskText := by
        unfold slice
        rw [ho, Nat.add_sub_cancel_left]
        exact List.take_left' rfl
      unfold maskedValue
      rw [heq, hvalue]
      dsimp only
      rw [hword]
      rfl
    unfold maskedValue at hmask
    cases he : valueEnd s start with
    | none =>
      rw [he] at hmask
      cases hmask
    | some e =>
      rw [he] at hmask
      dsimp only at hmask
      split at hmask
      · next n' hn' =>
        obtain ⟨hr, -⟩ : skipWhile isWs s e = d ∧ n' = n := by simpa using Option.some.inj hmask
        split at hn'
        · next hscheme =>
          obtain ⟨hlt, hrun⟩ := valueEnd_some he
          have hed : e < d := by
            have hle := le_skipWhile isWs s e
            rcases Nat.eq_or_lt_of_le (hr ▸ hle) with heq | hlt'
            · -- the scheme word does not end where the next word begins
              have hstop := hrun.stops
              rw [heq, h.first] at hstop
              cases hstop
            · exact hlt'
          have heo : valueEnd o start = some e := by
            have hskip : skipWhile (fun c => !isWs c) o start = e := (h.run hed).mp hrun.eq_skipWhile.symm
            unfold valueEnd
            rw [hskip]
            exact if_pos hlt
          have hslice : slice o start e = slice s start e := by
            have htake := h.take (Nat.le_of_lt hed)
            unfold slice
            rw [← List.drop_take, ← List.drop_take, htake]
          have hro : skipWhile isWs o e = d := h.ws.mp hr
          refine ⟨by omega, ?_⟩
          unfold maskedValue
          rw [heo]
          dsimp only
          rw [hslice, if_pos hscheme, hro, hvalue]
        · cases hn'
      · obtain ⟨heq, -⟩ : start = d ∧ e = n := by simpa using Option.some.inj hmask
        exact ⟨Nat.le_of_eq heq, hwhole heq⟩
  obtain ⟨hsd, hmasked⟩ := hmasked
  have hso : StartsWith kw o := (h.startsWith (by omega)).mp hss
  rcases hcases with ⟨hsep, hnext⟩ | ⟨hsep, hb, halt, heq⟩
  · have hmd : m < d := by
      have hle := le_skipWhile isWs s (m + 1)
      omega
    have hkey : keyEnd s (utf8 kw).length (kw == "bearer") = keyEnd o (utf8 kw).length (kw == "bearer") :=
      h.keyEnd_eq (.inl (by omega))
    have hmO : skipWhile isWs o (keyEnd o (utf8 kw).length (kw == "bearer")) = m := by
      rw [← hkey]
      exact (h.run hmd).mp hm
    have hnextO : skipWhile isWs o (m + 1) = start := by
      rcases Nat.eq_or_lt_of_le hsd with heq | hlt
      · rw [heq] at hnext ⊢
        exact h.ws.mp hnext
      · exact (h.run hlt).mp hnext
    rw [redactKeywordValue_of_parts hkw hso (valueStart_sep hmO (by rw [← h.same m hmd]; exact hsep) hnextO)]
    exact hmasked
  · obtain rfl : kw = "bearer" := by simpa using hb
    have hmO : skipWhile isWs o (utf8 "bearer").length = m ∧ (o[m]?).any isSeparator = false := by
      rcases Nat.eq_or_lt_of_le (show m ≤ d by omega) with hd | hlt
      · refine ⟨?_, ?_⟩
        · rw [hd] at hm ⊢
          exact h.ws.mp hm
        · rw [hd, h.bracket, Option.any_some, hsepb]
      · exact ⟨(h.run hlt).mp hm, by rw [← h.same m hlt]; exact hsep⟩
    have hbare : valueStart o (keyEnd o (utf8 "bearer").length true) true = some m :=
      valueStart_bare hmO.1 hmO.2 halt
    rw [redactKeywordValue_of_parts hkw hso hbare, ← heq]
    exact hmasked

/-- No key starts in the letters of `bearer` behind its first, or in the whitespace behind it. -/
theorem no_key_in_bearer {n k : ℕ} (hb : StartsWith "bearer" s)
    (hws : skipWhile isWs s (utf8 "bearer").length = d)
    (hk : 0 < k) (hv : redactKeywordValue (s.drop k) 0 = some (d - k, n)) : False := by
  obtain ⟨kw, hkw, start, hs, hstart, hmask⟩ := redactKeywordValue_parts hv
  have h5 := keyword_length kw hkw
  have h6 : (utf8 "bearer").length = 6 := rfl
  rw [h6] at hws
  have hletter (j : ℕ) (hj : j < (utf8 kw).length) : ∃ c, s[k + j]? = some c ∧
    (utf8 kw)[j]? = some (toAsciiLower c) := by
    have hget := congrArg (fun l => l[j]?) hs.2
    simp only [List.getElem?_map, List.getElem?_take, if_pos hj, List.getElem?_drop] at hget
    rw [List.getElem?_eq_getElem hj] at hget ⊢
    obtain ⟨c, hc, hcl⟩ := Option.map_eq_some_iff.mp hget
    exact ⟨c, hc, congrArg some hcl.symm⟩
  -- the key is shorter than what is kept, and its letters are no whitespace
  have hkd : k + 5 ≤ d := by
    have hle := le_keyEnd (s.drop k) (utf8 kw).length (kw == "bearer")
    obtain ⟨m, hm, hcases⟩ := valueStart_cases hstart
    have ham := le_skipWhile isWs (s.drop k) (keyEnd (s.drop k) (utf8 kw).length (kw == "bearer"))
    have hms : m ≤ start := by
      rcases hcases with ⟨-, hnext⟩ | ⟨-, -, -, hsm⟩
      · have hle := le_skipWhile isWs (s.drop k) (m + 1)
        omega
      · exact Nat.le_of_eq hsm.symm
    obtain ⟨-, e, hword, hsecret⟩ := maskedValue_secret hmask
    have hsd := (hsecret.bounds hword).1
    omega
  have hone : k = 1 := by
    by_contra hne
    obtain ⟨c, hc, hcl⟩ := hletter 4 (by omega)
    have hrun := (maxRun_skipWhile isWs s 6).all (k + 4) (by omega) (by omega)
    rw [hc, Option.any_some] at hrun
    have hlow : ∀ kw ∈ keywords, ((utf8 kw)[4]?).any isWs = false := by decide
    have hc' : isWs (toAsciiLower c) = isWs c := by
      have hwhich := hrun
      simp only [isWs, Bool.or_eq_true, beq_iff_eq] at hwhich
      rcases hwhich with ((((h | h) | h) | h) | h) | h <;> rw [h] <;> decide
    have hno := hlow kw hkw
    rw [hcl, Option.any_some, hc', hrun] at hno
    cases hno
  subst hone
  obtain ⟨c, hc, hcl⟩ := hletter 0 (by omega)
  have he : toAsciiLower c = byte 'e' := by
    have hget := congrArg (fun l => l[1]?) hb.2
    simp only [List.getElem?_map, List.getElem?_take, h6] at hget
    rw [if_pos (by decide), hc, Option.map_some] at hget
    exact Option.some.inj hget
  have hnone : ∀ kw ∈ keywords, (utf8 kw)[0]? ≠ some (byte 'e') := by decide
  exact hnone kw hkw (by rw [hcl, he])

end

end CtAgent.Redact
