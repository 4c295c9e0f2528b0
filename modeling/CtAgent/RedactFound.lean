import CtAgent.RedactCut

/-! The shapes that the scan finds where they start, and when it copies nothing of any of them. -/
namespace CtAgent.Redact
open CtAgent.Lib

/-- The word `bearer` as a key with a suffix or a closing quote, which the scan does not take. -/
inductive LooseBearer (b : Bytes) (i lo hi : ℕ) : Prop
  | mk (p₁ p₂ p₃ p₄ v e : ℕ) (hkey : Keyword "bearer" b i p₁) (hsuffix : AllBytes isIdent b p₁ p₂)
      (hquote : p₃ = p₂ ∨ (p₃ = p₂ + 1 ∧ (b[p₂]?).any isQuote = true)) (hloose : p₁ < p₃)
      (hws : AllBytes isWs b p₃ p₄) (hsep : (b[p₄]?).any isSeparator = true)
      (hws' : AllBytes isWs b (p₄ + 1) v) (hvalue : Word b v e) (hsecret : Secret b v e lo hi)

/-- No byte of the secret of any documented shape is copied by the scan. -/
def HidesSecrets (b : Bytes) : Prop :=
  ∀ i lo hi j, Shape b i lo hi → lo ≤ j → j < hi → ¬ Copied (redactTurns b) j

section
variable {b : Bytes} {i p q v e lo hi n : ℕ} {kw : String}

/-! Which matcher answers is told by the first bytes. -/

theorem Keyword.startsWith (hkw : kw ∈ keywords) (h : Keyword kw b i p) : StartsWith kw (b.drop i) := by
  obtain ⟨rfl, hlen, heq⟩ := h
  have hslice : slice (b.drop i) 0 (utf8 kw).length = slice b i (i + (utf8 kw).length) := by
    unfold slice
    rw [List.drop_zero, Nat.sub_zero, Nat.add_sub_cancel_left]
  refine (startsWith_iff hkw).mpr ⟨?_, hslice ▸ heq⟩
  rw [List.length_drop]
  omega

theorem Keyword.found (hkw : kw ∈ keywords) (h : Keyword kw b i p) :
    keywordAt b i = some (p, kw == "bearer") := by
  have hzero := keywordAt_of_startsWith hkw (h.startsWith hkw)
  obtain ⟨rfl, hlen, -⟩ := h
  have hfront : (b.take i).length = i := by
    rw [List.length_take]
    omega
  have happend := @keywordAt_append (b.take i) (b.drop i) 0
  rw [List.take_append_drop, hfront, Nat.add_zero, hzero] at happend
  exact happend

/-- The first letters of a keyword, as they stand in the text. -/
theorem Keyword.head {k : ℕ} (hkw : kw ∈ keywords) (h : Keyword kw b i p) (hk : k ≤ 5) :
    ((b.drop i).take k).map toAsciiLower = (utf8 kw).take k := by
  have hs := (h.startsWith hkw).2
  have hlen := keyword_length kw hkw
  rw [← hs, ← List.map_take, List.take_take, Nat.min_eq_left (by omega)]

/-- No keyword begins as a token does, and none with four hex digits. -/
theorem keyword_heads : (∀ kw ∈ keywords, (utf8 kw).take 3 ≠ (utf8 "eyJ").map toAsciiLower) ∧
    ∀ kw ∈ keywords, ((utf8 kw).take 4).all isAsciiHexdigit = false := by
  decide

theorem isAsciiHexdigit_lower (c : UInt8) (h : isAsciiHexdigit c = true) :
    isAsciiHexdigit (toAsciiLower c) = true := by
  have hc := @byte_all (fun c => !isAsciiHexdigit c || isAsciiHexdigit (toAsciiLower c)) (by decide +kernel) c
  simpa [h] using hc

/-- The bytes that end a key are none of a suffix, and of one kind each. -/
theorem key_ends (c : UInt8) : (isQuote c = true → isIdent c = false ∧ isWs c = false ∧
    isSeparator c = false) ∧
    (isWs c = true → isIdent c = false ∧ isQuote c = false ∧ isSeparator c = false) ∧
    (isSeparator c = true → isIdent c = false ∧ isQuote c = false ∧ isWs c = false) := by
  have hc := @byte_all (fun c => (!isQuote c || (!isIdent c && !isWs c && !isSeparator c)) &&
    (!isWs c || (!isIdent c && !isQuote c && !isSeparator c)) &&
    (!isSeparator c || (!isIdent c && !isQuote c && !isWs c))) (by decide +kernel) c
  simp only [Bool.and_eq_true, Bool.or_eq_true, Bool.not_eq_true'] at hc
  obtain ⟨⟨hq, hw⟩, hs⟩ := hc
  refine ⟨fun h => ?_, fun h => ?_, fun h => ?_⟩
  · simpa [h, and_assoc] using hq
  · simpa [h, and_assoc] using hw
  · simpa [h, and_assoc] using hs

theorem keywordAt_jwt (h : slice b i (i + 3) = utf8 "eyJ") : keywordAt b i = none := by
  cases hk : keywordAt b i with
  | none => rfl
  | some r =>
    obtain ⟨p, bearer⟩ := r
    obtain ⟨kw, hmem, hp, hlen, heq, -⟩ := keywordAt_some hk
    have hkey : Keyword kw b i p := ⟨hp, hlen, heq⟩
    have hhead := hkey.head hmem (by decide : 3 ≤ 5)
    unfold slice at h
    rw [Nat.add_sub_cancel_left] at h
    rw [h] at hhead
    exact absurd hhead.symm (keyword_heads.1 kw hmem)

theorem keywordAt_hex (hrun : MaxRun isAsciiHexdigit b i e) (hlen : i + 4 ≤ e) : keywordAt b i = none := by
  cases hk : keywordAt b i with
  | none => rfl
  | some r =>
    obtain ⟨p, bearer⟩ := r
    obtain ⟨kw, hmem, hp, hp', heq, -⟩ := keywordAt_some hk
    have hkey : Keyword kw b i p := ⟨hp, hp', heq⟩
    have hhead := hkey.head hmem (by decide : 4 ≤ 5)
    have hall : (((b.drop i).take 4).map toAsciiLower).all isAsciiHexdigit = true := by
      rw [List.all_eq_true]
      intro c hc
      obtain ⟨d, hd, rfl⟩ := List.mem_map.mp hc
      obtain ⟨k, hk4, rfl⟩ := List.mem_iff_getElem.mp hd
      have hk' : k < 4 := by
        rw [List.length_take] at hk4
        omega
      have hbyte := hrun.all (i + k) (by omega) (by omega)
      have hget : b[i + k]? = some ((b.drop i).take 4)[k] := by
        rw [List.getElem_take, List.getElem_drop, List.getElem?_eq_getElem]
      rw [hget] at hbyte
      exact isAsciiHexdigit_lower _ hbyte
    rw [hhead, keyword_heads.2 kw hmem] at hall
    cases hall

/-! A shape that is no loose `bearer` is found. -/

theorem maskedValue_of_secret (hvalue : Word b v e) (h : Secret b v e lo hi) :
    maskedValue b v = some (lo, hi) := by
  unfold maskedValue
  rw [valueEnd_word hvalue]
  dsimp only
  cases h with
  | afterScheme _ _ hscheme hws hword =>
    rw [if_pos hscheme, ← ws_unique hws hword, valueEnd_word hword]
  | whole hnot =>
    split
    next s hs =>
      split at hs
      next hscheme =>
        have hword : Word b (skipWhile isWs b e) s := valueEnd_some hs
        exact absurd ⟨hscheme, _, s, allBytes_skipWhile isWs b e, hword⟩ hnot
      · cases hs
    · rfl

/-- A run is all there is where something else stands behind it. -/
theorem AllBytes.eq_skipWhile {pred : UInt8 → Bool} (h : AllBytes pred b p q)
    (hstop : (b[q]?).any pred = false) : q = skipWhile pred b p :=
  MaxRun.eq_skipWhile ⟨h.1, h.2, hstop⟩

theorem any_key_ends {o : Option UInt8} :
    (o.any isQuote = true → o.any isIdent = false ∧ o.any isWs = false ∧ o.any isSeparator = false) ∧
    (o.any isWs = true → o.any isIdent = false ∧ o.any isQuote = false ∧ o.any isSeparator = false) ∧
    (o.any isSeparator = true → o.any isIdent = false ∧ o.any isQuote = false ∧ o.any isWs = false) := by
  cases o with
  | none => simp
  | some c => exact key_ends c

/-- Behind the suffix and the quote of a key stands what ends it. -/
theorem key_over {p₃ p₄ : ℕ} (hws : AllBytes isWs b p₃ p₄) (hsep : (b[p₄]?).any isSeparator = true) :
    (b[p₃]?).any isIdent = false ∧ (b[p₃]?).any isQuote = false := by
  rcases Nat.eq_or_lt_of_le hws.1 with rfl | hlt
  · exact ⟨(any_key_ends.2.2 hsep).1, (any_key_ends.2.2 hsep).2.1⟩
  · have h := any_key_ends.2.1 (hws.2 p₃ (Nat.le_refl _) hlt)
    exact ⟨h.1, h.2.1⟩

/-- Where the key of the shape ends is where the scan sees it end. -/
theorem keyEnd_of_shape {p₁ p₂ p₃ p₄ : ℕ} (hsuffix : AllBytes isIdent b p₁ p₂)
    (hquote : p₃ = p₂ ∨ (p₃ = p₂ + 1 ∧ (b[p₂]?).any isQuote = true)) (hws : AllBytes isWs b p₃ p₄)
    (hsep : (b[p₄]?).any isSeparator = true) : keyEnd b p₁ false = p₃ := by
  obtain ⟨hident, hnoquote⟩ := key_over hws hsep
  unfold keyEnd
  simp only [Bool.false_eq_true, if_false]
  rcases hquote with rfl | ⟨rfl, hquote⟩
  · rw [← hsuffix.eq_skipWhile hident, hnoquote]
    rfl
  · rw [← hsuffix.eq_skipWhile (any_key_ends.1 hquote).1, hquote]
    rfl

theorem no_left_edge {pred : UInt8 → Bool} (h : i = 0 ∨ (b[i - 1]?).any pred = false) :
    ¬ (decide (0 < i) && (b[i - 1]?).any pred) = true := by
  rcases h with rfl | h
  · simp
  · simp [h]

theorem redactHexRun_of_run (hleft : i = 0 ∨ (b[i - 1]?).any isAsciiHexdigit = false)
    (hrun : MaxRun isAsciiHexdigit b i e) (hlen : hexRunMin ≤ e - i) : redactHexRun b i = some (i, e) := by
  have hfirst := hrun.all i (Nat.le_refl i) (by unfold hexRunMin at hlen; omega)
  have hshort : ¬ e - i < hexRunMin := Nat.not_lt.mpr hlen
  unfold redactHexRun
  rw [hfirst, ← hrun.eq_skipWhile]
  simp only [Bool.not_true, Bool.false_eq_true, if_false, no_left_edge hleft, hshort]

theorem redactJwt_hex (hrun : MaxRun isAsciiHexdigit b i e) (hlen : hexRunMin ≤ e - i) :
    redactJwt b i = none := by
  unfold redactJwt
  split
  · rfl
  next hhead =>
    -- the second letter is no hex digit
    have hsecond := hrun.all (i + 1) (by omega) (by unfold hexRunMin at hlen; omega)
    have hget : (slice b i (i + 3))[1]? = b[i + 1]? := by
      unfold slice
      rw [Nat.add_sub_cancel_left, List.getElem?_take_of_lt (by decide), List.getElem?_drop]
    rw [← hget, not_not.mp hhead] at hsecond
    exact absurd hsecond (by decide)

theorem redactJwt_of_parts {j k : ℕ} (hhead : slice b i (i + 3) = utf8 "eyJ")
    (hleft : i = 0 ∨ (b[i - 1]?).any isB64url = false) (hfirst : MaxRun isB64url b i j)
    (hdot : b[j]? = some (byte '.')) (hsecond : MaxRun isB64url b (j + 1) k) (hne : j + 1 < k)
    (hthird : (e = k ∧ ¬ (b[k]? = some (byte '.') ∧ (b[k + 1]?).any isB64url = true)) ∨
      (b[k]? = some (byte '.') ∧ k + 1 < e ∧ MaxRun isB64url b (k + 1) e)) :
    redactJwt b i = some (i, e) := by
  have hend : jwtEnd b i = some e := by
    unfold jwtEnd
    simp only [← hfirst.eq_skipWhile, hdot, ← hsecond.eq_skipWhile, ne_eq, not_true_eq_false, if_false,
      Nat.ne_of_gt hne]
    rcases hthird with ⟨rfl, hno⟩ | ⟨hdot', hlt, hrun⟩
    · split
      next hdot' =>
        split
        next hmore =>
          have hrun := maxRun_skipWhile isB64url b (e + 1)
          exact absurd ⟨hdot', hrun.all (e + 1) (Nat.le_refl _) hmore⟩ hno
        · rfl
      · rfl
    · rw [if_pos hdot', ← hrun.eq_skipWhile, if_pos hlt]
  unfold redactJwt
  rw [if_neg (not_not.mpr hhead), if_neg (no_left_edge hleft), hend]
  rfl

theorem Shape.found (h : Shape b i lo hi) (hloose : ¬ LooseBearer b i lo hi) :
    findSecret b i = some (lo, hi) := by
  unfold findSecret
  cases h with
  | keyValue kw _ p₁ p₂ p₃ p₄ v e _ _ hkw hkey hsuffix hquote hws hsep hws' hvalue hsecret =>
    have hend : keyEnd b p₁ (kw == "bearer") = p₃ := by
      by_cases hb : kw = "bearer"
      · subst hb
        by_contra hne
        have hle := hsuffix.1
        have hlt : p₁ < p₃ := by
          have hp : p₁ ≠ p₃ := fun h => hne h
          rcases hquote with rfl | ⟨rfl, -⟩ <;> omega
        exact hloose ⟨p₁, p₂, p₃, p₄, v, e, hkey, hsuffix, hquote, hlt, hws, hsep, hws', hvalue, hsecret⟩
      · rw [beq_false_of_ne hb]
        exact keyEnd_of_shape hsuffix hquote hws hsep
    have hstart : valueStart b p₃ (kw == "bearer") = some v :=
      valueStart_sep (hws.eq_skipWhile (any_key_ends.2.2 hsep).2.2).symm hsep (ws_unique hws' hvalue).symm
    have hkv : redactKeywordValue b i = some (lo, hi) := by
      unfold redactKeywordValue
      rw [hkey.found hkw]
      dsimp only
      rw [hend, hstart]
      exact maskedValue_of_secret hvalue hsecret
    rw [hkv]
    rfl
  | bareBearer _ p v e _ _ hkey hws hpv hnosep hvalue hsecret =>
    have hkv : redactKeywordValue b i = some (lo, hi) := by
      unfold redactKeywordValue
      rw [hkey.found (by decide)]
      have hstart : valueStart b p true = some v := valueStart_bare (ws_unique hws hvalue).symm hnosep hpv
      simp only [beq_self_eq_true, keyEnd, if_true, hstart]
      exact maskedValue_of_secret hvalue hsecret
    rw [hkv]
    rfl
  | hexRun _ e hleft hrun hlen =>
    have hkv : redactKeywordValue b i = none := by
      unfold redactKeywordValue
      rw [keywordAt_hex hrun (by unfold hexRunMin at hlen; omega)]
    rw [hkv, redactJwt_hex hrun hlen, redactHexRun_of_run hleft hrun hlen]
    rfl
  | jwt _ j k e hhead hleft hfirst hdot hsecond hne hthird =>
    have hkv : redactKeywordValue b i = none := by
      unfold redactKeywordValue
      rw [keywordAt_jwt hhead]
    rw [hkv, redactJwt_of_parts hhead hleft hfirst hdot hsecond hne hthird]
    rfl

/-- No shape starts with an `x`. -/
theorem Shape.first (h : Shape b i lo hi) : b[i]? ≠ some (byte 'x') := by
  intro hx
  have hone : (b.drop i).take 1 = [byte 'x'] := by
    rw [List.take_one, List.head?_drop, hx]
    rfl
  have hkey {kw : String} {p : ℕ} (hkw : kw ∈ keywords) (hk : Keyword kw b i p) : False := by
    have hhead := hk.head hkw (by decide : 1 ≤ 5)
    rw [hone] at hhead
    have hnone : ∀ kw ∈ keywords, (utf8 kw).take 1 ≠ [byte 'x'].map toAsciiLower := by decide
    exact hnone kw hkw hhead.symm
  cases h with
  | keyValue kw _ p₁ p₂ p₃ p₄ v e _ _ hkw hk => exact hkey hkw hk
  | bareBearer _ p v e _ _ hk => exact hkey (by decide) hk
  | hexRun _ e hleft hrun hlen =>
    have hfirst := hrun.all i (Nat.le_refl i) (by unfold hexRunMin at hlen; omega)
    rw [hx] at hfirst
    exact absurd hfirst (by decide)
  | jwt _ j k e hhead =>
    have htake := congrArg (List.take 1) hhead
    unfold slice at htake
    rw [List.take_take, Nat.add_sub_cancel_left, Nat.min_eq_left (by decide), hone] at htake
    exact absurd htake (by decide)

/-- Where a loose `bearer` starts the scan finds nothing. -/
theorem LooseBearer.not_found (h : LooseBearer b i lo hi) : findSecret b i = none := by
  obtain ⟨p₁, p₂, p₃, p₄, v, e, hkey, hsuffix, hquote, hlt, hws, hsep, hws', hvalue, hsecret⟩ := h
  have hk : keywordAt b i = some (p₁, true) := hkey.found (by decide)
  have hbehind : (b[p₁]?).any isWs = false ∧ (b[p₁]?).any isSeparator = false := by
    rcases Nat.eq_or_lt_of_le hsuffix.1 with rfl | hident
    · rcases hquote with rfl | ⟨-, hquote⟩
      · omega
      · exact (any_key_ends.1 hquote).2
    · have hfirst := hsuffix.2 p₁ (Nat.le_refl _) hident
      refine ⟨Bool.eq_false_iff.mpr fun h => ?_, Bool.eq_false_iff.mpr fun h => ?_⟩
      · rw [(any_key_ends.2.1 h).1] at hfirst
        cases hfirst
      · rw [(any_key_ends.2.2 h).1] at hfirst
        cases hfirst
  have hstart : valueStart b p₁ true = none := by
    have hskip : skipWhile isWs b p₁ = p₁ :=
      (AllBytes.eq_skipWhile ⟨Nat.le_refl _, fun j hj hj' => by omega⟩ hbehind.1).symm
    unfold valueStart
    simp [hskip, hbehind.2]
  have hkv : redactKeywordValue b i = none := by
    unfold redactKeywordValue
    simp [hk, keyEnd, hstart]
  have hjwt : redactJwt b i = none := by
    unfold redactJwt
    split
    · rfl
    next hhead =>
      rw [keywordAt_jwt (not_not.mp hhead)] at hk
      cases hk
  have hhex : redactHexRun b i = none := by
    unfold redactHexRun
    split
    · rfl
    split
    · rfl
    dsimp only
    split
    · rfl
    next hlen =>
      rw [keywordAt_hex (maxRun_skipWhile isAsciiHexdigit b i) (by unfold hexRunMin at hlen; omega)] at hk
      cases hk
  unfold findSecret
  rw [hkv, hjwt, hhex]
  rfl

/-- The scan finds the documented shapes where they start, the loose `bearer` keys apart. -/
theorem findSecret_covers (b : Bytes) : Covers (Shape b) (LooseBearer b) (findSecret b) b.length where
  start_le _ _ _ h := h.bounds
  find_shape i v n h := by
    refine ⟨(findSecret_shape h).2, fun hloose => ?_⟩
    rw [hloose.not_found] at h
    cases h
  shape_found _ _ _ h hloose := h.found hloose

end

/-- A text whose shapes keep apart shows nothing of any of them. -/
theorem hides_secrets_of_apart (input : String)
    (h : Apart (Shape (utf8 input)) (LooseBearer (utf8 input))) : HidesSecrets (utf8 input) :=
  uncopied_of_apart (findSecret_forward _) (findSecret_covers _) h

/-- A text with the same span wherever the matcher answers, and no other `bearer` in it. -/
theorem apart_of_one_span {b : Bytes} (v n : ℕ) (starts : ℕ → Bool)
    (h : ∀ i < b.length, findSecret b i = if starts i then some (v, n) else none)
    (hbearer : ∀ i p, keywordAt b i = some (p, true) → starts i = true ∧ i < b.length) :
    Apart (Shape b) (LooseBearer b) := by
  have hloose : ∀ i lo hi, ¬ LooseBearer b i lo hi := by
    intro i lo hi hl
    have hnot := hl.not_found
    obtain ⟨p₁, p₂, p₃, p₄, v, e, hkey, -⟩ := hl
    obtain ⟨hstarts, hlen⟩ := hbearer i p₁ (hkey.found (by decide))
    rw [h i hlen, hstarts] at hnot
    cases hnot
  have hspan {i lo hi : ℕ} (hs : Shape b i lo hi) (hlt : lo < hi) : lo = v ∧ hi = n := by
    have hfound := hs.found (hloose i lo hi)
    have hbounds := hs.bounds
    rw [h i (by omega)] at hfound
    split at hfound
    · cases hfound
      exact ⟨rfl, rfl⟩
    · cases hfound
  refine ⟨fun i lo hi s lo' hi' j hs _ hs' his hsh hlo hhi => ?_,
    fun i lo hi _ hl => absurd hl (hloose i lo hi)⟩
  obtain ⟨rfl, rfl⟩ := hspan hs' (by omega)
  have hpos : lo < hi := (findSecret_shape (hs.found (hloose i lo hi))).1
  obtain ⟨rfl, rfl⟩ := hspan hs hpos
  exact .inl ⟨hlo, hhi⟩

/-- The scheme word of a header is a key of its own, with the same secret. -/
theorem header_hidden : HidesSecrets (utf8 "Authorization: Bearer abc") := by
  have hlen : (utf8 "Authorization: Bearer abc").length = 25 := by decide +kernel
  have hall : (List.range 25).all (fun i =>
      findSecret (utf8 "Authorization: Bearer abc") i == (if i == 0 || i == 15 then some (22, 25) else none) &&
        (keywordAt (utf8 "Authorization: Bearer abc") i).all (fun r => !r.2 || i == 15)) = true := by
    decide +kernel
  have hat : ∀ i < 25, _ := fun i hi => List.all_eq_true.mp hall i (List.mem_range.mpr hi)
  simp only [Bool.and_eq_true, beq_iff_eq] at hat
  refine hides_secrets_of_apart _ (apart_of_one_span 22 25 (fun i => i == 0 || i == 15) ?_ ?_)
  · intro i hi
    exact (hat i (hlen ▸ hi)).1
  · intro i p hk
    obtain ⟨kw, hmem, hp, hle, -⟩ := keywordAt_some hk
    have hpos := keyword_length kw hmem
    have hi : i < 25 := by omega
    have hb := (hat i hi).2
    rw [hk] at hb
    have h15 : i = 15 := by simpa using hb
    subst h15
    exact ⟨rfl, hlen ▸ hi⟩

/-- The value of the first key is the second key, and the value of that one is copied. -/
theorem second_key_swallowed : ¬ HidesSecrets (utf8 "token=secret: hunter2") := by
  intro h
  have hfind : redactKeywordValue (utf8 "token=secret: hunter2") 6 = some (14, 21) := by decide +kernel
  refine h 6 14 21 14 (redactKeywordValue_shape hfind).2 (by decide) (by decide) ?_
  refine ⟨⟨14, none⟩, ?_, by decide, by decide⟩
  decide +kernel

end CtAgent.Redact
