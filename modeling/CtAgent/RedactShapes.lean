import CtAgent.Redact

/-! The shapes of the module's documentation, each with the span that is its secret. All that the scan
masks is one of them. -/
namespace CtAgent.Redact
open CtAgent.Lib

/-- Every byte from `p` to `q` satisfies the predicate. -/
def AllBytes (pred : UInt8 → Bool) (b : Bytes) (p q : ℕ) : Prop :=
  p ≤ q ∧ ∀ j, p ≤ j → j < q → (b[j]?).any pred = true

/-- A whole word that is no whitespace. -/
def Word (b : Bytes) (lo hi : ℕ) : Prop := lo < hi ∧ MaxRun (fun c => !isWs c) b lo hi

/-- A keyword, in any case, from `i` to `p`. -/
def Keyword (kw : String) (b : Bytes) (i p : ℕ) : Prop :=
  p = i + (utf8 kw).length ∧ p ≤ b.length ∧ eqIgnoreAsciiCase (slice b i p) (utf8 kw) = true

/-- The scheme word of a value is kept and the word behind it is the secret. -/
inductive Secret (b : Bytes) (v e : ℕ) : ℕ → ℕ → Prop
  | afterScheme (lo hi : ℕ) (hscheme : isScheme (slice b v e) = true) (hws : AllBytes isWs b e lo)
      (hword : Word b lo hi) : Secret b v e lo hi
  | whole (h : ¬ (isScheme (slice b v e) = true ∧ ∃ lo hi, AllBytes isWs b e lo ∧ Word b lo hi)) :
      Secret b v e v e

/-- The documented shapes: where one starts, and the span of its secret. -/
inductive Shape (b : Bytes) : ℕ → ℕ → ℕ → Prop
  /-- A key, an optional suffix and closing quote, a separator and a value. -/
  | keyValue (kw : String) (i p₁ p₂ p₃ p₄ v e lo hi : ℕ) (hkw : kw ∈ keywords) (hkey : Keyword kw b i p₁)
      (hsuffix : AllBytes isIdent b p₁ p₂)
      (hquote : p₃ = p₂ ∨ (p₃ = p₂ + 1 ∧ (b[p₂]?).any isQuote = true))
      (hws : AllBytes isWs b p₃ p₄) (hsep : (b[p₄]?).any isSeparator = true)
      (hws' : AllBytes isWs b (p₄ + 1) v) (hvalue : Word b v e) (hsecret : Secret b v e lo hi) :
      Shape b i lo hi
  /-- The word `Bearer` and a value, with no separator. -/
  | bareBearer (i p v e lo hi : ℕ) (hkey : Keyword "bearer" b i p) (hws : AllBytes isWs b p v) (hpv : p < v)
      (hnosep : (b[v]?).any isSeparator = false) (hvalue : Word b v e) (hsecret : Secret b v e lo hi) :
      Shape b i lo hi
  /-- A maximal run of hex digits. -/
  | hexRun (i e : ℕ) (hleft : i = 0 ∨ (b[i - 1]?).any isAsciiHexdigit = false)
      (hrun : MaxRun isAsciiHexdigit b i e) (hlen : hexRunMin ≤ e - i) : Shape b i i e
  /-- `eyJ`, base64url, a dot, base64url, and once more where there is more. -/
  | jwt (i j k e : ℕ) (hhead : slice b i (i + 3) = utf8 "eyJ")
      (hleft : i = 0 ∨ (b[i - 1]?).any isB64url = false) (hfirst : MaxRun isB64url b i j)
      (hdot : b[j]? = some (byte '.')) (hsecond : MaxRun isB64url b (j + 1) k) (hne : j + 1 < k)
      (hthird : (e = k ∧ ¬ (b[k]? = some (byte '.') ∧ (b[k + 1]?).any isB64url = true)) ∨
        (b[k]? = some (byte '.') ∧ k + 1 < e ∧ MaxRun isB64url b (k + 1) e)) : Shape b i i e

section
variable {b : Bytes} {i p q v e lo hi n : ℕ}

theorem allBytes_skipWhile (pred : UInt8 → Bool) (b : Bytes) (p : ℕ) :
    AllBytes pred b p (skipWhile pred b p) :=
  ⟨(maxRun_skipWhile pred b p).le, (maxRun_skipWhile pred b p).all⟩

theorem Word.le_length (h : Word b lo hi) : hi ≤ b.length := h.2.le_length h.1

theorem Word.not_ws (h : Word b lo hi) : (b[lo]?).any isWs = false := by
  have hlo := h.2.all lo (Nat.le_refl lo) h.1
  cases hb : b[lo]? with
  | none => rfl
  | some c =>
    rw [hb] at hlo
    simpa using hlo

/-- The whitespace in front of a word is all there is. -/
theorem ws_unique (hws : AllBytes isWs b p lo) (hword : Word b lo hi) : lo = skipWhile isWs b p :=
  MaxRun.eq_skipWhile ⟨hws.1, hws.2, hword.not_ws⟩

theorem valueEnd_word (h : Word b lo hi) : valueEnd b lo = some hi := by
  have heq := h.2.eq_skipWhile
  unfold valueEnd
  dsimp only
  rw [← heq, if_pos h.1]

theorem Secret.bounds (h : Secret b v e lo hi) (hvalue : Word b v e) : v ≤ lo ∧ hi ≤ b.length := by
  cases h with
  | afterScheme _ _ hscheme hws hword => exact ⟨hvalue.1.le.trans hws.1, hword.le_length⟩
  | whole h => exact ⟨Nat.le_refl v, hvalue.le_length⟩

/-- A secret never starts in front of its shape, and ends inside the text. -/
theorem Shape.bounds (h : Shape b i lo hi) : i ≤ lo ∧ hi ≤ b.length := by
  cases h with
  | keyValue kw _ p₁ p₂ p₃ p₄ v e _ _ hkw hkey hsuffix hquote hws hsep hws' hvalue hsecret =>
    obtain ⟨hlo, hhi⟩ := hsecret.bounds hvalue
    have h₁ := hkey.1
    have h₂ := hsuffix.1
    have h₃ := hws.1
    have h₄ := hws'.1
    refine ⟨?_, hhi⟩
    rcases hquote with hq | ⟨hq, -⟩ <;> omega
  | bareBearer _ p v e _ _ hkey hws hpv hnosep hvalue hsecret =>
    obtain ⟨hlo, hhi⟩ := hsecret.bounds hvalue
    have h₁ := hkey.1
    exact ⟨by omega, hhi⟩
  | hexRun _ e hleft hrun hlen =>
    have hlt : i < hi := by
      unfold hexRunMin at hlen
      omega
    exact ⟨Nat.le_refl i, hrun.le_length hlt⟩
  | jwt _ j k e hhead hleft hfirst hdot hsecond hne hthird =>
    refine ⟨Nat.le_refl i, ?_⟩
    rcases hthird with ⟨rfl, -⟩ | ⟨-, hlt, hrun⟩
    · exact hsecond.le_length hne
    · exact hrun.le_length hlt

/-- What is masked of a value is its secret. -/
theorem maskedValue_secret (h : maskedValue b v = some (lo, hi)) :
    lo < hi ∧ ∃ e, Word b v e ∧ Secret b v e lo hi := by
  unfold maskedValue at h
  split at h
  · cases h
  next e he =>
    have hvalue : Word b v e := valueEnd_some he
    dsimp only at h
    split at h
    next s hs =>
      cases h
      split at hs
      next hscheme =>
        have hword : Word b (skipWhile isWs b e) hi := valueEnd_some hs
        exact ⟨hword.1, e, hvalue, .afterScheme _ _ hscheme (allBytes_skipWhile isWs b e) hword⟩
      · cases hs
    next hs =>
      cases h
      refine ⟨hvalue.1, _, hvalue, .whole ?_⟩
      rintro ⟨hscheme, lo', hi', hws, hword⟩
      rw [if_pos hscheme, ← ws_unique hws hword, valueEnd_word hword] at hs
      cases hs

theorem redactKeywordValue_shape (h : redactKeywordValue b i = some (v, n)) : v < n ∧ Shape b i v n := by
  unfold redactKeywordValue at h
  split at h
  · cases h
  next p bearer hkey =>
    obtain ⟨kw, hmem, hp, hlen, heq, hbearer⟩ := keywordAt_some hkey
    have hkeyword : Keyword kw b i p := ⟨hp, hlen, heq⟩
    split at h
    · cases h
    next start hstart =>
      obtain ⟨hlt, e, hvalue, hsecret⟩ := maskedValue_secret h
      refine ⟨hlt, ?_⟩
      unfold valueStart at hstart
      dsimp only at hstart
      split at hstart
      next hsep =>
        obtain rfl := Option.some.inj hstart
        cases bearer with
        | true =>
          exact .keyValue kw i p p p _ _ e v n hmem hkeyword ⟨Nat.le_refl p, by omega⟩ (.inl rfl)
            (allBytes_skipWhile isWs b _) hsep (allBytes_skipWhile isWs b _) hvalue hsecret
        | false =>
          refine .keyValue kw i p (skipWhile isIdent b p) _ _ _ e v n hmem hkeyword
            (allBytes_skipWhile isIdent b p) ?_ (allBytes_skipWhile isWs b _) hsep
            (allBytes_skipWhile isWs b _) hvalue hsecret
          unfold keyEnd
          simp only [Bool.false_eq_true, if_false]
          split
          next hquote => exact .inr ⟨rfl, hquote⟩
          · exact .inl rfl
      next hsep =>
        split at hstart
        next hbare =>
          obtain rfl := Option.some.inj hstart
          rw [Bool.and_eq_true, decide_eq_true_eq] at hbare
          obtain ⟨rfl, hws⟩ := hbare
          obtain rfl : kw = "bearer" := by simpa using hbearer.symm
          rw [Bool.not_eq_true] at hsep
          exact .bareBearer i p _ e v n hkeyword (allBytes_skipWhile isWs b p) hws hsep hvalue hsecret
        · cases hstart

/-- A place with nothing of its kind in front of it. -/
theorem left_edge {pred : UInt8 → Bool} (h : ¬ (decide (0 < i) && (b[i - 1]?).any pred) = true) :
    i = 0 ∨ (b[i - 1]?).any pred = false := by
  rw [Bool.and_eq_true, decide_eq_true_eq, not_and, Bool.not_eq_true] at h
  rcases Nat.eq_zero_or_pos i with h0 | h0
  · exact .inl h0
  · exact .inr (h h0)

/-- No third segment: there is no dot, or nothing behind it. -/
theorem no_third {k : ℕ} (h : ¬ k + 1 < skipWhile isB64url b (k + 1)) :
    ¬ (b[k + 1]?).any isB64url = true := by
  have hrun := maxRun_skipWhile isB64url b (k + 1)
  have heq : skipWhile isB64url b (k + 1) = k + 1 := Nat.le_antisymm (Nat.le_of_not_lt h) hrun.le
  rw [heq] at hrun
  simp [hrun.stops]

theorem redactJwt_shape (h : redactJwt b i = some (v, n)) : v < n ∧ Shape b i v n := by
  unfold redactJwt at h
  split at h
  · cases h
  next hhead =>
    split at h
    · cases h
    next hleft =>
      obtain ⟨e, he, heq⟩ := Option.map_eq_some_iff.mp h
      cases heq
      have hfirst := maxRun_skipWhile isB64url b i
      unfold jwtEnd at he
      dsimp only at he
      split at he
      · cases he
      next hdot =>
        have hsecond := maxRun_skipWhile isB64url b (skipWhile isB64url b i + 1)
        split at he
        · cases he
        next hne =>
          have hlt := Nat.lt_of_le_of_ne hsecond.le (Ne.symm hne)
          have hfle := hfirst.le
          have hshape {e : ℕ} := Shape.jwt i _ _ e (not_not.mp hhead) (left_edge hleft) hfirst
            (not_not.mp hdot) hsecond hlt
          split at he
          next hdot' =>
            split at he
            next hthird =>
              cases he
              exact ⟨by omega, hshape (.inr ⟨hdot', hthird, maxRun_skipWhile isB64url b _⟩)⟩
            next hthird =>
              cases he
              exact ⟨by omega, hshape (.inl ⟨rfl, fun hmore => no_third hthird hmore.2⟩)⟩
          next hdot' =>
            cases he
            exact ⟨by omega, hshape (.inl ⟨rfl, fun hmore => hdot' hmore.1⟩)⟩

theorem redactHexRun_shape (h : redactHexRun b i = some (v, n)) : v < n ∧ Shape b i v n := by
  unfold redactHexRun at h
  split at h
  · cases h
  split at h
  · cases h
  next hleft =>
    dsimp only at h
    split at h
    · cases h
    next hlen =>
      cases h
      have hlen' : hexRunMin ≤ skipWhile isAsciiHexdigit b i - i := Nat.le_of_not_lt hlen
      refine ⟨?_, .hexRun i _ (left_edge hleft) (maxRun_skipWhile isAsciiHexdigit b i) hlen'⟩
      unfold hexRunMin at hlen'
      omega

/-- Everything the scan masks is the secret of a documented shape. -/
theorem findSecret_shape (h : findSecret b i = some (v, n)) : v < n ∧ Shape b i v n := by
  unfold findSecret at h
  rcases Option.or_eq_some_iff.mp h with h | ⟨-, h⟩
  · exact redactKeywordValue_shape h
  rcases Option.or_eq_some_iff.mp h with h | ⟨-, h⟩
  · exact redactJwt_shape h
  · exact redactHexRun_shape h

variable (b)

theorem findSecret_forward : GoesForward (findSecret b) b.length := by
  intro i v n _ h
  obtain ⟨hlt, hshape⟩ := findSecret_shape h
  exact ⟨hshape.bounds.1, hlt, hshape.bounds.2⟩

end

end CtAgent.Redact
