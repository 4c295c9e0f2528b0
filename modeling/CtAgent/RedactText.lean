import CtAgent.RedactSuffix

/-! What `redact_secrets` puts out is text again. -/
namespace CtAgent.Redact
open CtAgent.Lib

theorem isAscii_of_le {b c : UInt8} (hle : b ≤ c) (hc : c.toNat < 0x80) : isAscii b = true := by
  apply decide_eq_true
  rw [UInt8.le_iff_toNat_le] at hle
  rw [UInt8.lt_iff_toNat_lt]
  have h80 : (0x80 : UInt8).toNat = 0x80 := rfl
  omega

theorem isAscii_of_isWs {b : UInt8} (h : isWs b = true) : isAscii b = true := by
  simp only [isWs, Bool.or_eq_true, beq_iff_eq] at h
  rcases h with ((((h | h) | h) | h) | h) | h <;> rw [h] <;> decide

theorem isAscii_of_isDigit {b : UInt8} (h : isDigit b = true) : isAscii b = true := by
  simp only [isDigit, Bool.and_eq_true, decide_eq_true_eq] at h
  exact isAscii_of_le h.2 (by decide)

theorem isAscii_of_isAsciiHexdigit {b : UInt8} (h : isAsciiHexdigit b = true) : isAscii b = true := by
  simp only [isAsciiHexdigit, Bool.or_eq_true, Bool.and_eq_true, decide_eq_true_eq] at h
  rcases h with (h | h) | h
  · exact isAscii_of_isDigit h
  · exact isAscii_of_le h.2 (by decide)
  · exact isAscii_of_le h.2 (by decide)

theorem isAscii_of_isB64url {b : UInt8} (h : isB64url b = true) : isAscii b = true := by
  simp only [isB64url, isAsciiAlphanumeric, Bool.or_eq_true, Bool.and_eq_true, decide_eq_true_eq,
    beq_iff_eq] at h
  rcases h with (((h | h) | h) | h) | h
  · exact isAscii_of_isDigit h
  · exact isAscii_of_le h.2 (by decide)
  · exact isAscii_of_le h.2 (by decide)
  · rw [h]
    decide
  · rw [h]
    decide

theorem isAscii_of_isSeparator {b : UInt8} (h : isSeparator b = true) : isAscii b = true := by
  simp only [isSeparator, Bool.or_eq_true, beq_iff_eq] at h
  rcases h with h | h <;> rw [h] <;> decide

section
variable {b : Bytes} {i v n p q lo hi e : ℕ}

theorem any_isAscii {pred : UInt8 → Bool} (hpred : ∀ c, pred c = true → isAscii c = true) {o : Option UInt8}
    (h : o.any pred = true) : o.any isAscii = true := by
  cases o with
  | none => exact absurd h (by simp)
  | some c => exact hpred c h

/-- The last byte of a stretch. -/
theorem AllBytes.last {pred : UInt8 → Bool} (h : AllBytes pred b p q) (hlt : p < q) :
    (b[q - 1]?).any pred = true :=
  h.2 (q - 1) (by omega) (by omega)

theorem MaxRun.last {pred : UInt8 → Bool} (h : MaxRun pred b p q) (hlt : p < q) :
    (b[q - 1]?).any pred = true :=
  h.all (q - 1) (by omega) (by omega)

/-- A word ends at whitespace or at the end of the text. -/
theorem Word.end_ascii (h : Word b lo hi) : hi = b.length ∨ (b[hi]?).any isAscii = true := by
  have hstop := h.2.stops
  cases hb : b[hi]? with
  | none =>
    have hle := List.getElem?_eq_none_iff.mp hb
    exact .inl (Nat.le_antisymm h.le_length hle)
  | some c =>
    rw [hb] at hstop
    have hws : isWs c = true := by simpa using hstop
    exact .inr (isAscii_of_isWs hws)

/-- Behind a separator and whitespace stands an ASCII byte. -/
theorem pred_ascii (hsep : (b[p]?).any isSeparator = true) (hws : AllBytes isWs b (p + 1) v) :
    p < v ∧ (b[v - 1]?).any isAscii = true := by
  have hle := hws.1
  refine ⟨by omega, ?_⟩
  rcases Nat.eq_or_lt_of_le hle with heq | hlt
  · rw [← heq, Nat.add_sub_cancel]
    exact any_isAscii (fun _ => isAscii_of_isSeparator) hsep
  · exact any_isAscii (fun _ => isAscii_of_isWs) (hws.last hlt)

theorem Secret.edges (h : Secret b v e lo hi) (hvalue : Word b v e) (hv : (b[v - 1]?).any isAscii = true) :
    v ≤ lo ∧ (b[lo - 1]?).any isAscii = true ∧ (hi = b.length ∨ (b[hi]?).any isAscii = true) := by
  cases h with
  | whole _ => exact ⟨le_refl v, hv, hvalue.end_ascii⟩
  | afterScheme _ _ hscheme hws hword =>
    have hlt : e < lo := by
      rcases Nat.eq_or_lt_of_le hws.1 with heq | hlt
      · -- the first word ends where no word begins
        have hstop := hvalue.2.stops
        have hfirst := hword.2.all lo (le_refl lo) hword.1
        rw [heq, hfirst] at hstop
        exact absurd hstop (by decide)
      · exact hlt
    have hle := hvalue.2.le
    exact ⟨by omega, any_isAscii (fun _ => isAscii_of_isWs) (hws.last hlt), hword.end_ascii⟩

/-- Both edges of what is masked are beside ASCII bytes. -/
theorem Shape.edges (h : Shape b i lo hi) (hlt : lo < hi) :
    ((b[lo]?).any isAscii = true ∨ (i < lo ∧ (b[lo - 1]?).any isAscii = true)) ∧
      (hi = b.length ∨ (b[hi]?).any isAscii = true ∨ (b[hi - 1]?).any isAscii = true) := by
  cases h with
  | keyValue kw _ p₁ p₂ p₃ p₄ v e _ _ hkw hkey hsuffix hquote hws hsep hws' hvalue hsecret =>
    obtain ⟨hpv, hv⟩ := pred_ascii hsep hws'
    obtain ⟨hle, hfront, hback⟩ := hsecret.edges hvalue hv
    have h₁ := hkey.1
    have h₂ := hsuffix.1
    have h₃ := hws.1
    have hi' : i < lo := by rcases hquote with hq | ⟨hq, -⟩ <;> omega
    exact ⟨.inr ⟨hi', hfront⟩, hback.imp_right .inl⟩
  | bareBearer _ p v e _ _ hkey hws hpv hnosep hvalue hsecret =>
    have hv : (b[v - 1]?).any isAscii = true := any_isAscii (fun _ => isAscii_of_isWs) (hws.last hpv)
    obtain ⟨hle, hfront, hback⟩ := hsecret.edges hvalue hv
    have h₁ := hkey.1
    exact ⟨.inr ⟨by omega, hfront⟩, hback.imp_right .inl⟩
  | hexRun _ e hleft hrun hlen =>
    have hfirst := hrun.all i (le_refl i) hlt
    exact ⟨.inl (any_isAscii (fun _ => isAscii_of_isAsciiHexdigit) hfirst),
      .inr (.inr (any_isAscii (fun _ => isAscii_of_isAsciiHexdigit) (MaxRun.last hrun hlt)))⟩
  | jwt _ j k e hhead hleft hfirst hdot hsecond hne hthird =>
    refine ⟨.inl ?_, .inr (.inr ?_)⟩
    · have he : b[i]? = some (byte 'e') := by
        have hget := congrArg (fun l => l[0]?) hhead
        unfold slice at hget
        simp only [List.getElem?_take, List.getElem?_drop] at hget
        rw [if_pos (by omega), Nat.add_zero] at hget
        exact hget
      rw [he]
      decide
    · rcases hthird with ⟨heq, -⟩ | ⟨-, hlt', hrun⟩
      · rw [heq]
        exact any_isAscii (fun _ => isAscii_of_isB64url) (MaxRun.last hsecond hne)
      · exact any_isAscii (fun _ => isAscii_of_isB64url) (MaxRun.last hrun hlt')

theorem slice_length (hhi : hi ≤ b.length) : (slice b lo hi).length = hi - lo := by
  unfold slice
  rw [List.length_take, List.length_drop]
  omega

theorem slice_ne_nil (hlt : lo < hi) (hhi : hi ≤ b.length) : slice b lo hi ≠ [] := by
  apply List.ne_nil_of_length_pos
  rw [slice_length hhi]
  omega

theorem slice_getLast? (hlt : lo < hi) (hhi : hi ≤ b.length) : (slice b lo hi).getLast? = b[hi - 1]? := by
  rw [List.getLast?_eq_getElem?, slice_length hhi]
  unfold slice
  rw [List.getElem?_take, if_pos (by omega), List.getElem?_drop]
  apply congrArg (fun p => b[p]?)
  omega

/-- The rest of the text, cut in front of what is masked and behind it. -/
theorem isText_parts {out : Bytes} (hfind : findSecret b i = some (v, n)) (h : IsText (out ++ b.drop i)) :
    IsText (out ++ slice b i v) ∧ IsText (slice b v n) ∧ IsText (b.drop n) := by
  obtain ⟨hlt, hshape⟩ := findSecret_shape hfind
  obtain ⟨hfront, hback⟩ := hshape.edges hlt
  obtain ⟨hle, hn⟩ := hshape.bounds
  have hv : b.drop i = slice b i v ++ b.drop v := by
    unfold slice
    have hplace : b.drop v = (b.drop i).drop (v - i) := by
      rw [List.drop_drop, Nat.add_sub_cancel' hle]
    rw [hplace, List.take_append_drop]
  rw [hv, ← List.append_assoc] at h
  have hcutv : IsText (out ++ slice b i v) ∧ IsText (b.drop v) := by
    apply isText_cut h
    rcases hfront with hhead | ⟨hiv, hlast⟩
    · refine .inr (.inr ?_)
      rwa [List.head?_drop]
    · refine .inr (.inl ?_)
      rw [List.getLast?_append_of_ne_nil _ (slice_ne_nil hiv (by omega)), slice_getLast? hiv (by omega)]
      exact hlast
  have hn' : b.drop v = slice b v n ++ b.drop n := by
    unfold slice
    have hplace : b.drop n = (b.drop v).drop (n - v) := by
      rw [List.drop_drop, Nat.add_sub_cancel' hlt.le]
    rw [hplace, List.take_append_drop]
  have hcutn : IsText (slice b v n) ∧ IsText (b.drop n) := by
    apply isText_cut (hn' ▸ hcutv.2)
    rcases hback with hend | hhead | hlast
    · exact .inl (by rw [hend, List.drop_length])
    · refine .inr (.inr ?_)
      rwa [List.head?_drop]
    · refine .inr (.inl ?_)
      rw [slice_getLast? hlt hn]
      exact hlast
  exact ⟨hcutv.1, hcutn⟩

/-- One turn in front of the rest of the text. -/
theorem isText_turn {out : Bytes} {t : Turn} (hit : t.hit = findSecret b t.pos)
    (h : IsText (out ++ b.drop t.pos)) : IsText ((out ++ turnOut b t) ++ b.drop t.next) := by
  unfold turnOut Turn.copyTo Turn.next
  cases hfind : t.hit with
  | none =>
    have hone : slice b t.pos (t.pos + 1) ++ b.drop (t.pos + 1) = b.drop t.pos := by
      unfold slice
      rw [Nat.add_sub_cancel_left, ← List.drop_drop, List.take_append_drop]
    simpa [List.append_assoc, hone] using h
  | some r =>
    obtain ⟨v, n⟩ := r
    obtain ⟨hkept, -, hrest⟩ := isText_parts (hit.symm.trans hfind) h
    have hmask : IsText maskText := ⟨"[REDACTED]", rfl⟩
    simpa [List.append_assoc] using (hkept.append hmask).append hrest

theorem isText_turns {out : Bytes} (fuel i : ℕ) (hfuel : b.length ≤ i + fuel) (h : IsText (out ++ b.drop i)) :
    IsText (out ++ (turns (findSecret b) b.length fuel i).flatMap (turnOut b)) := by
  induction fuel generalizing i out with
  | zero =>
    rw [List.drop_eq_nil_of_le (by omega)] at h
    exact h
  | succ fuel ih =>
    rw [turns]
    split
    · rename_i hi
      have hnext := ((findSecret_forward b).turn hi).1
      have hturn : IsText ((out ++ turnOut b ⟨i, findSecret b i⟩) ++
          b.drop (Turn.mk i (findSecret b i)).next) := isText_turn rfl h
      have hrest := ih (Turn.mk i (findSecret b i)).next (by omega) hturn
      dsimp only
      rw [List.flatMap_cons, ← List.append_assoc]
      exact hrest
    · rename_i hi
      rw [List.drop_eq_nil_of_le (Nat.le_of_not_lt hi)] at h
      exact h

end

/-- The conversion at the end changes nothing. -/
theorem utf8_redactSecrets (input : String) : utf8 (redactSecrets input) = redactOut (utf8 input) := by
  have htext : IsText ([] ++ (redactTurns (utf8 input)).flatMap (turnOut (utf8 input))) := by
    apply isText_turns (utf8 input).length 0 (by omega)
    exact ⟨input, rfl⟩
  obtain ⟨s, hs⟩ := htext
  have hout : redactOut (utf8 input) = utf8 s := hs
  rw [redactSecrets, hout, fromUtf8Lossy_utf8]

end CtAgent.Redact
