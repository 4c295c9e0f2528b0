import CtAgent.Lib.NetAddr

/-! Printed numbers and their readers: a number that was printed is read back, and is printed with no
more digits than any other spelling has. -/
namespace CtAgent.Lib

section
variable {b n : ℕ}

theorem toDigit_some {c : Char} {d : ℕ} (h : toDigit b c = some d) :
    d < b ∧ ('0' ≤ c ∧ c ≤ '9' ∧ d = c.toNat - '0'.toNat ∨ 10 ≤ d) := by
  unfold toDigit at h
  simp only [Option.ite_none_right_eq_some, Option.some.injEq] at h
  obtain ⟨hlt, hd⟩ := h
  rw [hd] at hlt
  refine ⟨hlt, ?_⟩
  split_ifs at hd with hnum hlow hup
  · exact .inl ⟨hnum.1, hnum.2, hd.symm⟩
  · exact .inr (by omega)
  · exact .inr (by omega)
  · omega

/-- A digit stands between `0` and `z`. -/
theorem toDigit_range {c : Char} {d : ℕ} (h : toDigit b c = some d) : 48 ≤ c.toNat ∧ c.toNat ≤ 122 := by
  unfold toDigit at h
  simp only [Option.ite_none_right_eq_some, Option.some.injEq] at h
  obtain ⟨hlt, hd⟩ := h
  split_ifs at hlt with hnum hlow hup
  · have h0 : 48 ≤ c.toNat := hnum.1
    have h9 : c.toNat ≤ 57 := hnum.2
    omega
  · have ha : 97 ≤ c.toNat := hlow.1
    have hz : c.toNat ≤ 122 := hlow.2
    omega
  · have ha : 65 ≤ c.toNat := hup.1
    have hz : c.toNat ≤ 90 := hup.2
    omega
  · omega

theorem toDigit_digitChar (hb : b ≤ 16) {d : ℕ} (hd : d < b) : toDigit b (Nat.digitChar d) = some d := by
  have h16 : d < 16 := Nat.lt_of_lt_of_le hd hb
  interval_cases d <;> simp [toDigit, Nat.digitChar, hd]

/-- A decimal digit is a digit of every larger radix. -/
theorem toDigit_of_decimal {c : Char} {d : ℕ} (h : toDigit 10 c = some d) (hb : 10 ≤ b) :
    toDigit b c = some d := by
  obtain ⟨hlt, ⟨h0, h9, hd⟩ | hge⟩ := toDigit_some h
  · have hdb : c.toNat - '0'.toNat < b := by omega
    have hnum : '0' ≤ c ∧ c ≤ '9' := ⟨h0, h9⟩
    unfold toDigit
    simp only [if_pos hnum]
    rw [if_pos hdb, hd]
  · omega

theorem ofDigits_append_singleton (ds : List ℕ) (d : ℕ) :
    ofDigits b (ds ++ [d]) = ofDigits b ds * b + d := by
  unfold ofDigits
  rw [List.foldl_append]
  rfl

theorem ofDigits_lt (ds : List ℕ) (hds : ∀ d ∈ ds, d < b) : ofDigits b ds < b ^ ds.length := by
  induction ds using List.reverseRecOn with
  | nil => simp [ofDigits]
  | append_singleton ds d ih =>
    have hd : d < b := hds d (by simp)
    have hlt := ih (fun d' hd' => hds d' (by simp [hd']))
    rw [ofDigits_append_singleton, List.length_append, List.length_singleton, pow_succ]
    calc ofDigits b ds * b + d < ofDigits b ds * b + b := Nat.add_lt_add_left hd _
      _ = (ofDigits b ds + 1) * b := by ring
      _ ≤ b ^ ds.length * b := Nat.mul_le_mul_right b hlt

/-- The digits of a printed number, read one by one. -/
theorem mapM_toDigit_toDigits (hb : 1 < b) (h16 : b ≤ 16) (n : ℕ) :
    ∃ ds, (Nat.toDigits b n).mapM (toDigit b) = some ds ∧ ofDigits b ds = n := by
  induction n using Nat.strongRecOn with
  | ind n ih =>
    by_cases hn : n < b
    · refine ⟨[n], ?_, by simp [ofDigits]⟩
      rw [Nat.toDigits_of_lt_base hn]
      simp [toDigit_digitChar h16 hn]
    · have hle : b ≤ n := Nat.le_of_not_lt hn
      have hmod : n % b < b := Nat.mod_lt n (by omega)
      obtain ⟨ds, hread, hvalue⟩ := ih (n / b) (Nat.div_lt_self (by omega) hb)
      refine ⟨ds ++ [n % b], ?_, ?_⟩
      · rw [Nat.toDigits_of_base_le hb hle, List.mapM_append, hread]
        simp [toDigit_digitChar h16 hmod]
      · rw [ofDigits_append_singleton, hvalue, Nat.div_add_mod']

theorem isSome_of_mem_toDigits (hb : 1 < b) (h16 : b ≤ 16) {c : Char} (hc : c ∈ Nat.toDigits b n) :
    (toDigit b c).isSome = true := by
  induction n using Nat.strongRecOn with
  | ind n ih =>
    by_cases hn : n < b
    · rw [Nat.toDigits_of_lt_base hn, List.mem_singleton] at hc
      rw [hc, toDigit_digitChar h16 hn]
      rfl
    · rw [Nat.toDigits_of_base_le hb (Nat.le_of_not_lt hn), List.mem_append, List.mem_singleton] at hc
      rcases hc with hc | rfl
      · exact ih (n / b) (Nat.div_lt_self (by omega) hb) hc
      · rw [toDigit_digitChar h16 (Nat.mod_lt n (by omega))]
        rfl

/-- No zero stands in front of a printed number. -/
theorem head_toDigits (hb : 1 < b) (h16 : b ≤ 16) (hn : 0 < n) : (Nat.toDigits b n).head? ≠ some '0' := by
  induction n using Nat.strongRecOn with
  | ind n ih =>
    by_cases hlt : n < b
    · rw [Nat.toDigits_of_lt_base hlt, List.head?_cons]
      intro h
      have hread := toDigit_digitChar h16 hlt
      rw [Option.some.inj h] at hread
      have hzero : toDigit b '0' = some 0 := by
        simp [toDigit]
        omega
      rw [hzero] at hread
      cases hread
      omega
    · have hdiv : 0 < n / b := Nat.div_pos (Nat.le_of_not_lt hlt) (by omega)
      rw [Nat.toDigits_of_base_le hb (Nat.le_of_not_lt hlt),
        List.head?_append_of_ne_nil _ Nat.toDigits_ne_nil]
      exact ih (n / b) (Nat.div_lt_self (by omega) hb) hdiv

theorem mapM_toDigit {cs : List Char} {ds : List ℕ} (h : cs.mapM (toDigit b) = some ds) :
    ds.length = cs.length ∧ cs.filterMap (toDigit b) = ds ∧ ∀ d ∈ ds, d < b := by
  induction cs generalizing ds with
  | nil =>
    rw [List.mapM_nil] at h
    cases h
    simp
  | cons c cs ih =>
    simp only [List.mapM_cons, Option.bind_eq_bind, Option.bind_eq_some_iff] at h
    obtain ⟨d, hd, ds', hds', hcons⟩ := h
    cases hcons
    obtain ⟨hlen, hmap, hlt⟩ := ih hds'
    refine ⟨by rw [List.length_cons, List.length_cons, hlen], ?_, fun d' hd' => ?_⟩
    · rw [List.filterMap_cons_some hd, hmap]
    rcases List.mem_cons.mp hd' with rfl | hmem
    · exact (toDigit_some hd).1
    · exact hlt d' hmem

/-- The digits of a spelling, without its sign. -/
def unsigned (cs : List Char) : List Char :=
  match cs with
  | '+' :: rest => rest
  | cs => cs

theorem unsigned_length_le (cs : List Char) : (unsigned cs).length ≤ cs.length := by
  unfold unsigned
  split <;> simp

theorem parseUint_unsigned (bound : ℕ) (s : String) : parseUint bound s =
    if unsigned s.toList = [] then none
    else match (unsigned s.toList).mapM (toDigit 10) with
      | none => none
      | some ds => if ofDigits 10 ds < bound then some (ofDigits 10 ds) else none := rfl

theorem parseUint_eq (bound : ℕ) (s : String) : parseUint bound s =
    if unsigned s.toList = [] then none
    else ((unsigned s.toList).mapM (toDigit 10)).bind
      (fun ds => if ofDigits 10 ds < bound then some (ofDigits 10 ds) else none) := by
  rw [parseUint_unsigned]
  split
  · rfl
  · cases (unsigned s.toList).mapM (toDigit 10) with
    | none => rfl
    | some ds => rfl

theorem parseUint_lt {bound : ℕ} {s : String} (h : parseUint bound s = some n) : n < bound := by
  rw [parseUint_eq] at h
  split at h
  · cases h
  · obtain ⟨ds, -, hvalue⟩ := Option.bind_eq_some_iff.mp h
    obtain ⟨hlt, hn⟩ := Option.ite_none_right_eq_some.mp hvalue
    rwa [← Option.some.inj hn]

/-- Numbers are read back from their decimal text. -/
theorem parseUint_repr {bound : ℕ} (hn : n < bound) : parseUint bound n.repr = some n := by
  obtain ⟨ds, hread, hvalue⟩ := mapM_toDigit_toDigits (b := 10) (by decide) (by decide) n
  have hplain : unsigned (Nat.toDigits 10 n) = Nat.toDigits 10 n := by
    unfold unsigned
    split
    · next rest hs =>
      have hplus : '+' ∈ Nat.toDigits 10 n := by simp [hs]
      exact absurd (isSome_of_mem_toDigits (by decide) (by decide) hplus) (by decide)
    · rfl
  rw [parseUint_eq, Nat.toList_repr, hplain, if_neg Nat.toDigits_ne_nil, hread, Option.bind_some, hvalue,
    if_pos hn]

/-- The printed spelling is the shortest one. -/
theorem repr_length_le {bound : ℕ} {s : String} (h : parseUint bound s = some n) :
    n.repr.toList.length ≤ s.toList.length := by
  rw [parseUint_eq] at h
  split at h
  · cases h
  · next hne =>
    obtain ⟨ds, hread, hvalue⟩ := Option.bind_eq_some_iff.mp h
    obtain ⟨hlen, -, hlt⟩ := mapM_toDigit hread
    have hn : ofDigits 10 ds = n := (Option.some.inj (Option.ite_none_right_eq_some.mp hvalue).2)
    have hpos : 0 < (unsigned s.toList).length := List.length_pos_iff.mpr hne
    have hbound : n < 10 ^ (unsigned s.toList).length := by
      rw [← hn, ← hlen]
      exact ofDigits_lt ds hlt
    rw [Nat.toList_repr]
    calc (Nat.toDigits 10 n).length ≤ (unsigned s.toList).length :=
          (Nat.length_toDigits_le_iff (by decide) hpos).mpr hbound
      _ ≤ s.toList.length := unsigned_length_le _

end

end CtAgent.Lib
