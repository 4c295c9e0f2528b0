import CtAgent.RedactCut

/-! `redact_secrets` once more on what it put out changes nothing. -/
namespace CtAgent.Redact
open CtAgent.Lib

section
variable {s o z : Bytes} {d n k : ℕ} {prev prev' : Option UInt8} {c : UInt8}

/-! The two token shapes in front of a mask. -/

theorem Cut.jwt_of_masked (h : Cut d s o) (ho : redactJwt o 0 ≠ none) : redactJwt s 0 ≠ none := by
  obtain ⟨r, hr⟩ := Option.ne_none_iff_exists'.mp ho
  unfold redactJwt at hr
  split at hr
  · cases hr
  next hhead =>
  rw [not_not] at hhead
  split at hr
  · cases hr
  obtain ⟨e, he, -⟩ := Option.map_eq_some_iff.mp hr
  have hb64 : isB64url (byte '[') = false := by decide
  have h3 : 3 ≤ d := by
    by_contra hlt
    have hget := congrArg (fun l => l[d]?) hhead
    simp only [slice, List.getElem?_take, List.getElem?_drop, Nat.zero_add] at hget
    rw [if_pos (by omega), h.bracket] at hget
    have hno : (utf8 "eyJ").all (· != byte '[') = true := by decide
    have hmem : byte '[' ∈ utf8 "eyJ" := List.mem_of_getElem? hget.symm
    have habs := List.all_eq_true.mp hno _ hmem
    exact absurd habs (by decide)
  have hheadS : slice s 0 (0 + 3) = utf8 "eyJ" := by
    rw [← hhead]
    unfold slice
    rw [List.drop_zero, List.drop_zero, h.take (by omega)]
  unfold jwtEnd at he
  dsimp only at he
  split at he
  · cases he
  next hdot =>
  rw [not_not] at hdot
  split at he
  · cases he
  next hne =>
  -- the dot and the byte behind it are in front of the cut
  have hj : skipWhile isB64url o 0 < d := by
    rcases Nat.eq_or_lt_of_le (h.run_le hb64 (Nat.zero_le d)) with heq | hlt
    · rw [heq, h.bracket] at hdot
      exact absurd hdot (by decide)
    · exact hlt
  have hsecond : (o[skipWhile isB64url o 0 + 1]?).any isB64url = true := by
    have hrun := maxRun_skipWhile isB64url o (skipWhile isB64url o 0 + 1)
    have hle := hrun.le
    exact hrun.all _ (Nat.le_refl _) (by omega)
  have hj' : skipWhile isB64url o 0 + 1 < d := by
    rcases Nat.eq_or_lt_of_le (show skipWhile isB64url o 0 + 1 ≤ d from hj) with heq | hlt
    · rw [heq, h.bracket, Option.any_some, hb64] at hsecond
      cases hsecond
    · exact hlt
  have hjS : skipWhile isB64url s 0 = skipWhile isB64url o 0 := (h.run hj).mpr rfl
  have hneS : skipWhile isB64url s (skipWhile isB64url o 0 + 1) ≠ skipWhile isB64url o 0 + 1 := by
    intro heq
    have hstop := (maxRun_skipWhile isB64url s (skipWhile isB64url o 0 + 1)).stops
    rw [heq, h.same _ hj', hsecond] at hstop
    cases hstop
  unfold redactJwt jwtEnd
  dsimp only
  rw [if_neg (not_not.mpr hheadS), if_neg (by simp), hjS, h.same _ hj, if_neg (not_not.mpr hdot), if_neg hneS]
  split
  · split <;> simp
  · simp

theorem Cut.hex_of_masked (h : Cut d s o) (ho : redactHexRun o 0 ≠ none) : redactHexRun s 0 ≠ none := by
  have hhex : isAsciiHexdigit (byte '[') = false := by decide
  have hle := h.run_le hhex (Nat.zero_le d)
  have hlen : hexRunMin ≤ skipWhile isAsciiHexdigit o 0 := by
    by_contra hlt
    apply ho
    unfold redactHexRun
    split
    · rfl
    split
    · rfl
    · exact if_pos (Nat.lt_of_not_le hlt)
  have hmin : hexRunMin = 64 := rfl
  -- the run of the text is at least as long
  have hlenS : skipWhile isAsciiHexdigit o 0 ≤ skipWhile isAsciiHexdigit s 0 := by
    by_contra hlt
    have hstop := (maxRun_skipWhile isAsciiHexdigit s 0).stops
    have hall := (maxRun_skipWhile isAsciiHexdigit o 0).all (skipWhile isAsciiHexdigit s 0)
      (Nat.zero_le _) (Nat.lt_of_not_le hlt)
    rw [h.same _ (by omega), hall] at hstop
    cases hstop
  have hfirst := (maxRun_skipWhile isAsciiHexdigit s 0).all 0 (Nat.le_refl 0) (by omega)
  unfold redactHexRun
  rw [hfirst]
  simp only [Bool.not_true, Bool.false_eq_true, if_false, Nat.lt_irrefl, decide_false, Bool.false_and]
  rw [if_neg (by omega)]
  simp

/-- Both tokens start with a hex digit. -/
theorem redactToken_none (h : (s.head?).any isAsciiHexdigit = false) : redactToken prev s = none := by
  have hfirst : (s[0]?).any isAsciiHexdigit = false := by rwa [← List.head?_eq_getElem?]
  have hjwt : redactJwt s 0 = none := by
    unfold redactJwt
    rw [if_pos]
    intro heq
    have hget := congrArg (fun l => l[0]?) heq
    simp only [slice, List.getElem?_take, List.getElem?_drop, Nat.zero_add] at hget
    rw [if_pos (by decide)] at hget
    rw [hget] at hfirst
    exact absurd hfirst (by decide)
  have hhex : redactHexRun s 0 = none := by
    unfold redactHexRun
    rw [hfirst]
    rfl
  unfold redactToken
  rw [hjwt, hhex]
  split <;> split <;> rfl

theorem redactToken_start {v : ℕ} (h : redactToken prev s = some (v, n)) :
    v = 0 ∧ (s.head?).any isAsciiHexdigit = true ∧ (s[n]?).any isAsciiHexdigit = false := by
  have hhead : (s.head?).any isAsciiHexdigit = true := by
    cases hh : (s.head?).any isAsciiHexdigit with
    | true => rfl
    | false =>
      rw [redactToken_none hh] at h
      cases h
  have hb64 : ∀ c, isB64url c = false → isAsciiHexdigit c = false := by
    intro c hc
    cases hx : isAsciiHexdigit c with
    | false => rfl
    | true =>
      have hin : isB64url c = true := by
        unfold isAsciiHexdigit at hx
        unfold isB64url isAsciiAlphanumeric
        simp only [Bool.or_eq_true, Bool.and_eq_true, decide_eq_true_eq] at hx ⊢
        have hfz : byte 'f' ≤ byte 'z' := by decide
        have hFZ : byte 'F' ≤ byte 'Z' := by decide
        rcases hx with (hx | hx) | hx
        · exact .inl (.inl (.inl (.inl hx)))
        · exact .inl (.inl (.inl (.inr ⟨hx.1, UInt8.le_trans hx.2 hfz⟩)))
        · exact .inl (.inl (.inr ⟨hx.1, UInt8.le_trans hx.2 hFZ⟩))
      rw [hin] at hc
      cases hc
  have hstop : ∀ p : ℕ, (s[p]?).any isB64url = false → (s[p]?).any isAsciiHexdigit = false := by
    intro p hp
    cases hs : s[p]? with
    | none => rfl
    | some c =>
      rw [hs] at hp
      exact hb64 c hp
  unfold redactToken at h
  rcases Option.or_eq_some_iff.mp h with h | ⟨-, h⟩
  · split at h
    · cases h
    obtain ⟨-, hshape⟩ := redactJwt_shape h
    unfold redactJwt at h
    split at h
    · cases h
    split at h
    · cases h
    obtain ⟨e, he, heq⟩ := Option.map_eq_some_iff.mp h
    obtain ⟨hv, hn⟩ : 0 = v ∧ e = n := by simpa using heq
    refine ⟨hv.symm, hhead, hstop n ?_⟩
    rw [← hn]
    unfold jwtEnd at he
    dsimp only at he
    split at he
    · cases he
    split at he
    · cases he
    split at he
    · split at he
      · rw [← Option.some.inj he]
        exact (maxRun_skipWhile isB64url s _).stops
      · rw [← Option.some.inj he]
        exact (maxRun_skipWhile isB64url s _).stops
    · rw [← Option.some.inj he]
      exact (maxRun_skipWhile isB64url s _).stops
  · split at h
    · cases h
    unfold redactHexRun at h
    split at h
    · cases h
    split at h
    · cases h
    dsimp only at h
    split at h
    · cases h
    obtain ⟨hv, hn⟩ : 0 = v ∧ skipWhile isAsciiHexdigit s 0 = n := by simpa using h
    refine ⟨hv.symm, hhead, ?_⟩
    rw [← hn]
    exact (maxRun_skipWhile isAsciiHexdigit s 0).stops

/-! The bytes of a mask. -/

theorem keyword_none {t : Bytes} (h : ∀ kw ∈ keywords, (utf8 kw).take 2 ≠ (t.take 2).map toAsciiLower) :
    redactKeywordValue t 0 = none := by
  cases hr : redactKeywordValue t 0 with
  | none => rfl
  | some r =>
    obtain ⟨kw, hkw, -, hs, -, -⟩ := redactKeywordValue_parts hr
    have hlen := keyword_length kw hkw
    refine absurd ?_ (h kw hkw)
    rw [← hs.2, ← List.map_take, List.take_take, Nat.min_eq_left (by omega)]

/-- A byte no key starts with. -/
theorem keyword_none_first {t : Bytes} (h : ∀ kw ∈ keywords, (utf8 kw).take 1 ≠ [toAsciiLower c]) :
    redactKeywordValue (c :: t) 0 = none := by
  apply keyword_none
  intro kw hkw heq
  apply h kw hkw
  have htake := congrArg (List.take 1) heq
  rwa [List.take_take, ← List.map_take, List.take_take] at htake

theorem findAt_none (hkey : redactKeywordValue s 0 = none) (htoken : redactToken prev s = none) :
    findAt prev s = none := by
  rw [findAt, hkey, htoken]
  rfl

theorem isWs_first (h : isWs c = true) : ∀ kw ∈ keywords, (utf8 kw).take 1 ≠ [toAsciiLower c] := by
  simp only [isWs, Bool.or_eq_true, beq_iff_eq] at h
  rcases h with ((((h | h) | h) | h) | h) | h <;> rw [h] <;> decide

theorem isWs_not_hex (h : isWs c = true) : isAsciiHexdigit c = false := by
  simp only [isWs, Bool.or_eq_true, beq_iff_eq] at h
  rcases h with ((((h | h) | h) | h) | h) | h <;> rw [h] <;> decide

/-- Whitespace is copied. -/
theorem redactRest_ws (h : isWs c = true) : redactRest prev (c :: s) = c :: redactRest (some c) s := by
  apply redactRest_none
  apply findAt_none (keyword_none_first (isWs_first h))
  exact redactToken_none (isWs_not_hex h)

/-- A short run of hex digits, told by its end. -/
theorem redactToken_short {t : Bytes} (hprev : prev.any isB64url = true)
    (hrun : prev.any isAsciiHexdigit = true ∨ skipWhile isAsciiHexdigit t 0 < hexRunMin) :
    redactToken prev t = none := by
  unfold redactToken
  rw [if_pos hprev, Option.none_or]
  rcases hrun with hhex | hshort
  · exact if_pos hhex
  · split
    · rfl
    · unfold redactHexRun
      split
      · rfl
      split
      · rfl
      · exact if_pos hshort

/-- A mask is copied as it is. -/
theorem redactRest_mask (prev : Option UInt8) (z : Bytes) :
    redactRest prev (maskText ++ z) = maskText ++ redactRest (some (byte ']')) z := by
  have hkey {c : UInt8} {t : Bytes} (h : ∀ kw ∈ keywords, (utf8 kw).take 1 ≠ [toAsciiLower c]) :=
    keyword_none_first (t := t) h
  have hcopy {prev : Option UInt8} {c : UInt8} {t : Bytes} (h : redactKeywordValue (c :: t) 0 = none)
      (h' : redactToken prev (c :: t) = none) : redactRest prev (c :: t) = c :: redactRest (some c) t :=
    redactRest_none (findAt_none h h')
  have hmask : maskText = [91, 82, 69, 68, 65, 67, 84, 69, 68, 93] := by decide
  rw [hmask]
  simp only [List.cons_append, List.nil_append]
  rw [hcopy (hkey (by decide)) (redactToken_none rfl), hcopy (hkey (by decide)) (redactToken_none rfl)]
  -- the four hex digits behind the first letter, and the two behind the second `T`, are short runs
  have hfour (t : Bytes) : skipWhile isAsciiHexdigit (69 :: 68 :: 65 :: 67 :: 84 :: t) 0 < hexRunMin := by
    have hrun : skipWhile isAsciiHexdigit (69 :: 68 :: 65 :: 67 :: 84 :: t) 0 = 4 := rfl
    rw [hrun]
    decide
  have htwo (t : Bytes) : skipWhile isAsciiHexdigit (69 :: 68 :: 93 :: t) 0 < hexRunMin := by
    have hrun : skipWhile isAsciiHexdigit (69 :: 68 :: 93 :: t) 0 = 2 := rfl
    rw [hrun]
    decide
  -- no key starts with `ac` or `te`
  have hac (t : Bytes) : redactKeywordValue (65 :: 67 :: t) 0 = none := by
    have htwo : ∀ kw ∈ keywords, (utf8 kw).take 2 ≠ [97, 99] := by decide
    exact keyword_none htwo
  have hte (t : Bytes) : redactKeywordValue (84 :: 69 :: t) 0 = none := by
    have htwo : ∀ kw ∈ keywords, (utf8 kw).take 2 ≠ [116, 101] := by decide
    exact keyword_none htwo
  rw [hcopy (hkey (by decide)) (redactToken_short rfl (.inr (hfour _))),
    hcopy (hkey (by decide)) (redactToken_short rfl (.inl rfl)),
    hcopy (hac _) (redactToken_short rfl (.inl rfl)),
    hcopy (hkey (by decide)) (redactToken_short rfl (.inl rfl)),
    hcopy (hte _) (redactToken_none rfl),
    hcopy (hkey (by decide)) (redactToken_short rfl (.inr (htwo _))),
    hcopy (hkey (by decide)) (redactToken_short rfl (.inl rfl)),
    hcopy (hkey (by decide)) (redactToken_none rfl)]
  rfl

/-! A text and what the scan makes of it. -/

/-- The two are the same, or the same up to the first mask: it stands for the first byte of a word that
is no separator, unless a key in front of it is matched. -/
inductive Masked (s o : Bytes) : Prop where
  | same (h : o = s)
  | cut (d : ℕ) (z : Bytes) (hcut : Cut d s o) (ho : o.drop d = maskText ++ z)
    (hkey : (s[d]?).any isSeparator = false ∨
      ∃ k n, k ≤ d ∧ redactKeywordValue (s.drop k) 0 = some (d - k, n))

theorem Masked.cons (h : Masked s o) (c : UInt8) : Masked (c :: s) (c :: o) := by
  cases h with
  | same h => exact .same (by rw [h])
  | cut d z hcut ho hkey =>
    refine .cut (d + 1) z ⟨fun j hj => ?_, ?_, ?_⟩ ?_ ?_
    · cases j with
      | zero => rfl
      | succ j =>
        rw [List.getElem?_cons_succ, List.getElem?_cons_succ]
        exact hcut.same j (by omega)
    · rw [List.getElem?_cons_succ]
      exact hcut.bracket
    · rw [List.getElem?_cons_succ]
      exact hcut.first
    · rw [List.drop_succ_cons]
      exact ho
    · rw [List.getElem?_cons_succ]
      rcases hkey with hkey | ⟨k, n, hk, hkey⟩
      · exact .inl hkey
      · refine .inr ⟨k + 1, n, by omega, ?_⟩
        rwa [List.drop_succ_cons, Nat.add_sub_add_right]

/-- Where the kept part of a match ends, a word begins. -/
theorem cut_of_match {v : ℕ} (hv : v ≤ s.length) (hfirst : (s[v]?).any (fun c => !isWs c) = true) (z : Bytes) :
    Cut v s (s.take v ++ maskText ++ z) ∧ (s.take v ++ maskText ++ z).drop v = maskText ++ z := by
  have hlen : (s.take v).length = v := List.length_take_of_le hv
  have hdrop : (s.take v ++ maskText ++ z).drop v = maskText ++ z := by
    rw [List.append_assoc]
    exact List.drop_left' hlen
  refine ⟨⟨fun j hj => ?_, ?_, hfirst⟩, hdrop⟩
  · rw [List.append_assoc, List.getElem?_append_left (by omega), List.getElem?_take, if_pos hj]
  · have hget : (s.take v ++ maskText ++ z)[v + 0]? = (maskText ++ z)[0]? := by
      rw [← hdrop, List.getElem?_drop]
    exact hget

theorem isWs_of_hex {o : Option UInt8} (h : o.any isAsciiHexdigit = true) :
    o.any (fun c => !isWs c) = true ∧ o.any isSeparator = false := by
  cases o with
  | none => cases h
  | some c =>
    rw [Option.any_some] at h ⊢
    refine ⟨?_, ?_⟩
    · cases hw : isWs c with
      | false => rfl
      | true =>
        rw [isWs_not_hex hw] at h
        cases h
    · cases hs : isSeparator c with
      | false => rw [Option.any_some, hs]
      | true =>
        simp only [isSeparator, Bool.or_eq_true, beq_iff_eq] at hs
        rcases hs with hs | hs <;> rw [hs] at h <;> exact absurd h (by decide)

/-- The kept part of a match, by its kind. -/
theorem findAt_cases {v : ℕ} (h : findAt prev s = some (v, n)) :
    redactKeywordValue s 0 = some (v, n) ∨
      (redactKeywordValue s 0 = none ∧ v = 0 ∧ (s.head?).any isAsciiHexdigit = true ∧
        (s[n]?).any isAsciiHexdigit = false) := by
  unfold findAt at h
  rcases Option.or_eq_some_iff.mp h with h | ⟨hnone, h⟩
  · exact .inl h
  · exact .inr ⟨hnone, redactToken_start h⟩

/-- Behind the value of a key stands whitespace, or nothing. -/
theorem value_first {v : ℕ} (h : redactKeywordValue s 0 = some (v, n)) :
    (s[v]?).any (fun c => !isWs c) = true ∧ (s[n]?).any (fun c => !isWs c) = false := by
  obtain ⟨kw, hkw, start, hs, hstart, hmask⟩ := redactKeywordValue_parts h
  obtain ⟨-, e, hword, hsecret⟩ := maskedValue_secret hmask
  cases hsecret with
  | afterScheme _ _ hscheme hws hsecond =>
    exact ⟨hsecond.2.all _ (Nat.le_refl _) hsecond.1, hsecond.2.stops⟩
  | whole hnot => exact ⟨hword.2.all _ (Nat.le_refl _) hword.1, hword.2.stops⟩

theorem masked_redactRest (prev : Option UInt8) (s : Bytes) : Masked s (redactRest prev s) := by
  induction s generalizing prev with
  | nil => exact .same rfl
  | cons c s ih =>
    cases hf : findAt prev (c :: s) with
    | none =>
      rw [redactRest_none hf]
      exact (ih (some c)).cons c
    | some r =>
      obtain ⟨v, n⟩ := r
      have hn := findAt_bounds hf
      rw [redactRest_some hf]
      rcases findAt_cases hf with hkey | ⟨-, hv, hhex, -⟩
      · obtain ⟨hcut, hdrop⟩ := cut_of_match (by omega) (value_first hkey).1
          (redactRest (c :: s)[n - 1]? ((c :: s).drop n))
        exact .cut v _ hcut hdrop (.inr ⟨0, n, Nat.zero_le v, hkey⟩)
      · rw [hv]
        have hfirst := isWs_of_hex hhex
        rw [List.head?_eq_getElem?] at hfirst
        obtain ⟨hcut, hdrop⟩ := cut_of_match (Nat.zero_le _) hfirst.1
          (redactRest (c :: s)[n - 1]? ((c :: s).drop n))
        exact .cut 0 _ hcut hdrop (.inl hfirst.2)

/-- What is matched behind `prev'` as behind `prev`. -/
def Linked (prev prev' : Option UInt8) (s : Bytes) : Prop :=
  prev' = prev ∨ (s.head?).any isAsciiHexdigit = false

/-- Nothing is matched in the output where nothing was matched in the text. -/
theorem findAt_masked (hl : Linked prev prev' s) (hm : Masked s o) (h : findAt prev s = none) :
    findAt prev' o = none := by
  obtain ⟨hkey, htoken⟩ : redactKeywordValue s 0 = none ∧ redactToken prev s = none :=
    Option.or_eq_none_iff.mp h
  cases hm with
  | same ho =>
    subst ho
    apply findAt_none hkey
    rcases hl with rfl | hhead
    · exact htoken
    · exact redactToken_none hhead
  | cut d z hcut ho hsep =>
    apply findAt_none
    · by_contra hsome
      rcases hcut.value_of_masked hsome with hs | ⟨hs, hb, hws⟩
      · exact hs hkey
      · rcases hsep with hno | ⟨k, n, hk, hmatch⟩
        · rw [hs] at hno
          cases hno
        · rcases Nat.eq_zero_or_pos k with rfl | hpos
          · rw [List.drop_zero, hkey] at hmatch
            cases hmatch
          · exact no_key_in_bearer hb hws hpos hmatch
    · rcases hl with rfl | hhead
      · obtain ⟨hjwt, hhex⟩ := Option.or_eq_none_iff.mp htoken
        unfold redactToken
        apply Option.or_eq_none_iff.mpr
        refine ⟨?_, ?_⟩
        · split at hjwt
          · next hp => exact if_pos hp
          · next hp =>
            rw [if_neg hp]
            by_contra hsome
            exact hcut.jwt_of_masked hsome hjwt
        · split at hhex
          · next hp => exact if_pos hp
          · next hp =>
            rw [if_neg hp]
            by_contra hsome
            exact hcut.hex_of_masked hsome hhex
      · -- the first byte is the same, or a bracket
        apply redactToken_none
        rw [List.head?_eq_getElem?] at hhead ⊢
        rcases Nat.eq_zero_or_pos d with hd | hd
        · rw [← hd, hcut.bracket]
          rfl
        · rw [← hcut.same 0 hd]
          exact hhead

/-- By induction on the rest of the text: what the scan puts out, it puts out again. -/
theorem redactRest_again (len : ℕ) (hlen : s.length ≤ len) (hl : Linked prev prev' s) :
    redactRest prev' (redactRest prev s) = redactRest prev s := by
  induction len generalizing s prev prev' with
  | zero =>
    obtain rfl := List.length_eq_zero_iff.mp (Nat.le_zero.mp hlen)
    rfl
  | succ len ih =>
    cases s with
    | nil => rfl
    | cons c s =>
      rw [List.length_cons] at hlen
      cases hf : findAt prev (c :: s) with
      | none =>
        have hmasked := masked_redactRest prev (c :: s)
        rw [redactRest_none hf] at hmasked ⊢
        rw [redactRest_none (findAt_masked hl hmasked hf), ih (by omega) (.inl rfl)]
      | some r =>
        obtain ⟨v, n⟩ := r
        have hn := findAt_bounds hf
        have hrest : ((c :: s).drop n).length ≤ len := by
          rw [List.length_drop, List.length_cons]
          omega
        rw [redactRest_some hf]
        have hhead : ((c :: s).drop n).head? = (c :: s)[n]? := List.head?_drop
        rcases findAt_cases hf with hkey | ⟨-, rfl, -, hstop⟩
        · obtain ⟨hfirst, hend⟩ := value_first hkey
          have hcut := cut_of_match (s := c :: s) (by omega) hfirst
          -- behind the value stands whitespace, so the mask is a word of its own
          have hspace : redactRest (c :: s)[n - 1]? ((c :: s).drop n) = [] ∨
              ((redactRest (c :: s)[n - 1]? ((c :: s).drop n)).head?).any isWs = true := by
            cases hd : (c :: s).drop n with
            | nil => exact .inl rfl
            | cons w t =>
              right
              rw [hd, List.head?_cons] at hhead
              rw [← hhead, Option.any_some, Bool.not_eq_false'] at hend
              rw [redactRest_ws hend, List.head?_cons, Option.any_some, hend]
          have hagain := (hcut _).1.value_again hkey (hcut _).2 hspace
          have hlink : Linked (c :: s)[n - 1]? (some (byte ']')) ((c :: s).drop n) := by
            right
            rw [hhead]
            cases hs : (c :: s)[n]? with
            | none => rfl
            | some w =>
              rw [hs, Option.any_some, Bool.not_eq_false'] at hend
              exact isWs_not_hex hend
          have hlast : ((c :: s).take v ++ maskText ++
              redactRest (c :: s)[n - 1]? ((c :: s).drop n))[v + 10 - 1]? = some (byte ']') := by
            have hget := congrArg (fun l => l[9]?) (hcut (redactRest (c :: s)[n - 1]? ((c :: s).drop n))).2
            simp only [List.getElem?_drop] at hget
            exact hget
          have hleft : ((c :: s).take v ++ maskText ++
              redactRest (c :: s)[n - 1]? ((c :: s).drop n)).drop (v + 10) =
              redactRest (c :: s)[n - 1]? ((c :: s).drop n) := by
            rw [← List.drop_drop, (hcut _).2]
            rfl
          have htake : ((c :: s).take v ++ maskText ++
              redactRest (c :: s)[n - 1]? ((c :: s).drop n)).take v = (c :: s).take v :=
            ((hcut _).1.take (Nat.le_refl v)).symm
          have hfound : findAt prev' ((c :: s).take v ++ maskText ++
              redactRest (c :: s)[n - 1]? ((c :: s).drop n)) = some (v, v + 10) := by
            rw [findAt, hagain]
            rfl
          rw [redactRest_some hfound, hlast, hleft, htake, ih hrest hlink]
        · have hlink : Linked (c :: s)[n - 1]? (some (byte ']')) ((c :: s).drop n) := by
            right
            rwa [hhead]
          rw [List.take_zero, List.nil_append, redactRest_mask, ih hrest hlink]

theorem redactOut_again (b : Bytes) : redactOut (redactOut b) = redactOut b := by
  rw [redactOut_eq, redactOut_eq]
  exact redactRest_again b.length (Nat.le_refl _) (.inl rfl)

end

/-! The output as the text with spans replaced. -/

/-- Pairs of a kept and a masked part, and what is kept behind the last of them. -/
def joined (f : String × String → String) (parts : List (String × String)) (tail : String) : String :=
  parts.foldr (fun p rest => f p ++ rest) tail

theorem joined_cons (f : String × String → String) (p : String × String) (parts : List (String × String))
    (tail : String) : joined f (p :: parts) tail = f p ++ joined f parts tail := rfl

theorem exists_parts {b : Bytes} (fuel i : ℕ) (out : Bytes) (hfuel : b.length ≤ i + fuel)
    (h : IsText (out ++ b.drop i)) :
    ∃ parts tail, (∀ p ∈ parts, p.2 ≠ "") ∧
      out ++ b.drop i = utf8 (joined (fun p => p.1 ++ p.2) parts tail) ∧
      out ++ (turns (findSecret b) b.length fuel i).flatMap (turnOut b) =
        utf8 (joined (fun p => p.1 ++ "[REDACTED]") parts tail) := by
  induction fuel generalizing i out with
  | zero =>
    rw [List.drop_eq_nil_of_le (by omega)] at h ⊢
    obtain ⟨tail, ht⟩ := h
    exact ⟨[], tail, by simp, ht, ht⟩
  | succ fuel ih =>
    rw [turns]
    by_cases hi : i < b.length
    · rw [if_pos hi]
      dsimp only
      rw [List.flatMap_cons]
      cases hfind : findSecret b i with
      | none =>
        have hone : slice b i (i + 1) ++ b.drop (i + 1) = b.drop i := by
          unfold slice
          rw [Nat.add_sub_cancel_left, ← List.drop_drop, List.take_append_drop]
        rw [← hone, ← List.append_assoc] at h ⊢
        obtain ⟨parts, tail, hne, hwhole, hmasked⟩ := ih (i + 1) (out ++ slice b i (i + 1)) (by omega) h
        refine ⟨parts, tail, hne, hwhole, ?_⟩
        rw [← hmasked, List.append_assoc]
        simp [turnOut, Turn.copyTo, Turn.next]
      | some r =>
        obtain ⟨v, n⟩ := r
        obtain ⟨hle, hlt, hn⟩ := findSecret_forward b i v n hi hfind
        obtain ⟨⟨kept, hkept⟩, ⟨secret, hsecret⟩, hrest⟩ := isText_parts hfind h
        obtain ⟨parts, tail, hne, hwhole, hmasked⟩ := ih n [] (by omega) hrest
        rw [List.nil_append] at hwhole hmasked
        have hsplit : b.drop i = slice b i v ++ (slice b v n ++ b.drop n) := by
          have hv : b.drop v = (b.drop i).drop (v - i) := by rw [List.drop_drop, Nat.add_sub_cancel' hle]
          have hn' : b.drop n = (b.drop v).drop (n - v) := by rw [List.drop_drop, Nat.add_sub_cancel' hlt.le]
          unfold slice
          rw [hn', List.take_append_drop, hv, List.take_append_drop]
        refine ⟨(kept, secret) :: parts, tail, ?_, ?_, ?_⟩
        · intro p hp
          rcases List.mem_cons.mp hp with rfl | hp
          · -- a match masks at least one byte
            intro hnil
            apply slice_ne_nil hlt hn
            rw [hsecret]
            exact congrArg utf8 hnil
          · exact hne p hp
        · rw [hsplit, ← List.append_assoc, hkept, hsecret, hwhole, joined_cons, utf8_append, utf8_append,
            List.append_assoc]
        · have hturn : turnOut b ⟨i, some (v, n)⟩ = slice b i v ++ maskText := rfl
          have hnext : (Turn.mk i (some (v, n))).next = n := rfl
          rw [hturn, hnext, hmasked, ← List.append_assoc, ← List.append_assoc, hkept, joined_cons, utf8_append,
            utf8_append]
          rfl
    · rw [if_neg hi]
      rw [List.drop_eq_nil_of_le (Nat.le_of_not_lt hi)] at h ⊢
      obtain ⟨tail, ht⟩ := h
      exact ⟨[], tail, by simp, ht, ht⟩

theorem utf8_inj {s t : String} (h : utf8 s = utf8 t) : s = t := by
  have hs := ofUtf8_utf8 s
  rw [h, ofUtf8_utf8] at hs
  exact (Option.some.inj hs).symm

/-- The scan ends, what it collects is text, it is the input with spans replaced, and a second scan
replaces nothing. -/
theorem redact_secrets_idempotent (input : String) :
    redactSecrets (redactSecrets input) = redactSecrets input ∧
    utf8 (redactSecrets input) = redactOut (utf8 input) ∧
    (∃ parts tail, (∀ p ∈ parts, p.2 ≠ "") ∧ input = joined (fun p => p.1 ++ p.2) parts tail ∧
      redactSecrets input = joined (fun p => p.1 ++ "[REDACTED]") parts tail) ∧
    (∀ i v n, i < (utf8 input).length → findSecret (utf8 input) i = some (v, n) →
      i < n ∧ n ≤ (utf8 input).length) ∧
    ∀ fuel, (utf8 input).length ≤ fuel →
      turns (findSecret (utf8 input)) (utf8 input).length fuel 0 = redactTurns (utf8 input) := by
  have hout := utf8_redactSecrets input
  refine ⟨?_, hout, ?_, ?_, ?_⟩
  · apply utf8_inj
    rw [utf8_redactSecrets, hout, redactOut_again]
  · obtain ⟨parts, tail, hne, hwhole, hmasked⟩ :=
      exists_parts (b := utf8 input) (utf8 input).length 0 [] (by omega) ⟨input, rfl⟩
    exact ⟨parts, tail, hne, utf8_inj hwhole, utf8_inj (hout.trans hmasked)⟩
  · intro i v n hi hfind
    obtain ⟨hle, hlt, hn⟩ := findSecret_forward _ i v n hi hfind
    exact ⟨by omega, hn⟩
  · intro fuel hfuel
    exact turns_fuel (findSecret_forward _) (by omega) (by omega)

end CtAgent.Redact
