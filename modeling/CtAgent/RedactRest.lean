import CtAgent.RedactSuffix

/-! `redact_secrets` as a recursion on the rest of the text. What is matched there depends on the bytes
that follow and, for the two token shapes, on the one in front. -/
namespace CtAgent.Redact
open CtAgent.Lib

def redactToken (prev : Option UInt8) (s : Bytes) : Option (ℕ × ℕ) :=
  (if prev.any isB64url then none else redactJwt s 0).or
    (if prev.any isAsciiHexdigit then none else redactHexRun s 0)

def findAt (prev : Option UInt8) (s : Bytes) : Option (ℕ × ℕ) :=
  (redactKeywordValue s 0).or (redactToken prev s)

def prevOf (b : Bytes) (i : ℕ) : Option UInt8 := if 0 < i then b[i - 1]? else none

def redactFrom : ℕ → Option UInt8 → Bytes → Bytes
  | 0, _, _ => []
  | _ + 1, _, [] => []
  | fuel + 1, prev, c :: s =>
    match findAt prev (c :: s) with
    | some (v, n) => (c :: s).take v ++ maskText ++ redactFrom fuel (c :: s)[n - 1]? ((c :: s).drop n)
    | none => c :: redactFrom fuel (some c) s

/-- What the scan makes of the rest of a text behind `prev`. -/
def redactRest (prev : Option UInt8) (s : Bytes) : Bytes := redactFrom s.length prev s

section
variable {b s : Bytes} {prev : Option UInt8} {i v n : ℕ}

theorem redactJwt_drop (front s : Bytes) :
    redactJwt (front ++ s) front.length =
      (if (prevOf (front ++ s) front.length).any isB64url then none else redactJwt s 0).map
        (fun r => (front.length + r.1, front.length + r.2)) := by
  have hslice := @slice_append front s 0 3
  have hend := @jwtEnd_append front s 0
  rw [Nat.add_zero] at hslice hend
  have hprev : (decide (0 < front.length) && ((front ++ s)[front.length - 1]?).any isB64url) =
      (prevOf (front ++ s) front.length).any isB64url := by
    unfold prevOf
    split <;> simp [*]
  unfold redactJwt
  rw [hslice, hend, hprev]
  by_cases hhead : slice s 0 (0 + 3) = utf8 "eyJ"
  · cases (prevOf (front ++ s) front.length).any isB64url with
    | true => simp [hhead]
    | false => cases jwtEnd s 0 <;> simp [hhead]
  · cases (prevOf (front ++ s) front.length).any isB64url with
    | true => simp
    | false => simp [hhead]

theorem redactHexRun_drop (front s : Bytes) :
    redactHexRun (front ++ s) front.length =
      (if (prevOf (front ++ s) front.length).any isAsciiHexdigit then none else redactHexRun s 0).map
        (fun r => (front.length + r.1, front.length + r.2)) := by
  have hfirst := @getElem?_append front s 0
  have hrun := @skipWhile_append front s isAsciiHexdigit 0
  rw [Nat.add_zero] at hfirst hrun
  have hprev : (decide (0 < front.length) && ((front ++ s)[front.length - 1]?).any isAsciiHexdigit) =
      (prevOf (front ++ s) front.length).any isAsciiHexdigit := by
    unfold prevOf
    split <;> simp [*]
  unfold redactHexRun
  rw [hfirst, hrun, hprev]
  cases (prevOf (front ++ s) front.length).any isAsciiHexdigit with
  | true => cases (s[0]?).any isAsciiHexdigit <;> simp
  | false =>
    cases (s[0]?).any isAsciiHexdigit with
    | false => simp
    | true =>
      simp only [Bool.not_true, Bool.false_eq_true, if_false, Nat.add_sub_cancel_left, Nat.lt_irrefl,
        decide_false, Bool.false_and, Nat.sub_zero]
      split <;> rfl

theorem findSecret_drop (hi : i ≤ b.length) :
    findSecret b i = (findAt (prevOf b i) (b.drop i)).map (fun r => (i + r.1, i + r.2)) := by
  have hlen : (b.take i).length = i := List.length_take_of_le hi
  have hkey := @redactKeywordValue_append (b.take i) (b.drop i) 0
  have hjwt := redactJwt_drop (b.take i) (b.drop i)
  have hhex := redactHexRun_drop (b.take i) (b.drop i)
  rw [hlen, List.take_append_drop] at hkey hjwt hhex
  rw [Nat.add_zero] at hkey
  unfold findSecret findAt redactToken
  rw [hkey, hjwt, hhex]
  cases redactKeywordValue (b.drop i) 0 with
  | some r => rfl
  | none => cases (if (prevOf b i).any isB64url then none else redactJwt (b.drop i) 0) <;> rfl

theorem findAt_bounds (h : findAt prev s = some (v, n)) : v < n ∧ n ≤ s.length := by
  have hshape : v < n ∧ Shape s 0 v n := by
    unfold findAt redactToken at h
    rcases Option.or_eq_some_iff.mp h with h | ⟨-, h⟩
    · exact redactKeywordValue_shape h
    rcases Option.or_eq_some_iff.mp h with h | ⟨-, h⟩
    · split at h
      · cases h
      · exact redactJwt_shape h
    · split at h
      · cases h
      · exact redactHexRun_shape h
  exact ⟨hshape.1, hshape.2.bounds.2⟩

theorem redactFrom_fuel {fuel fuel' : ℕ} (h : s.length ≤ fuel) (h' : s.length ≤ fuel') :
    redactFrom fuel prev s = redactFrom fuel' prev s := by
  induction fuel generalizing fuel' prev s with
  | zero =>
    obtain rfl := List.length_eq_zero_iff.mp (Nat.le_zero.mp h)
    cases fuel' <;> rfl
  | succ fuel ih =>
    cases s with
    | nil => cases fuel' <;> rfl
    | cons c s =>
      obtain ⟨fuel', rfl⟩ : ∃ k, fuel' = k + 1 := ⟨fuel' - 1, by simp only [List.length_cons] at h'; omega⟩
      rw [List.length_cons] at h h'
      rw [redactFrom, redactFrom]
      cases hf : findAt prev (c :: s) with
      | none =>
        exact congrArg (c :: ·) (ih (by omega) (by omega))
      | some r =>
        obtain ⟨v, n⟩ := r
        have hn := findAt_bounds hf
        have hlen : ((c :: s).drop n).length ≤ s.length := by
          rw [List.length_drop, List.length_cons]
          omega
        exact congrArg ((c :: s).take v ++ maskText ++ ·) (ih (by omega) (by omega))

@[simp] theorem redactRest_nil : redactRest prev [] = [] := rfl

theorem redactRest_none {c : UInt8} (h : findAt prev (c :: s) = none) :
    redactRest prev (c :: s) = c :: redactRest (some c) s := by
  unfold redactRest
  rw [List.length_cons, redactFrom, h]

theorem redactRest_some (h : findAt prev s = some (v, n)) :
    redactRest prev s = s.take v ++ maskText ++ redactRest s[n - 1]? (s.drop n) := by
  have hn := findAt_bounds h
  cases s with
  | nil =>
    rw [List.length_nil] at hn
    omega
  | cons c s =>
    have hlen : ((c :: s).drop n).length ≤ s.length := by
      rw [List.length_drop, List.length_cons]
      omega
    have hfuel : redactFrom s.length (c :: s)[n - 1]? ((c :: s).drop n) =
        redactFrom ((c :: s).drop n).length (c :: s)[n - 1]? ((c :: s).drop n) :=
      redactFrom_fuel hlen (Nat.le_refl _)
    unfold redactRest
    rw [List.length_cons, redactFrom, h]
    dsimp only
    rw [hfuel]

theorem flatMap_turns (fuel : ℕ) (hi : i ≤ b.length) :
    (turns (findSecret b) b.length fuel i).flatMap (turnOut b) = redactFrom fuel (prevOf b i) (b.drop i) := by
  induction fuel generalizing i with
  | zero => rfl
  | succ fuel ih =>
    rw [turns]
    by_cases hlt : i < b.length
    · have hdrop : b.drop i = b[i] :: b.drop (i + 1) := List.drop_eq_getElem_cons hlt
      have hfind := findSecret_drop hi
      rw [if_pos hlt, List.flatMap_cons, hdrop, redactFrom, ← hdrop]
      cases hf : findAt (prevOf b i) (b.drop i) with
      | none =>
        rw [hf, Option.map_none] at hfind
        have hone : slice b i (i + 1) = [b[i]] := by
          rw [slice, Nat.add_sub_cancel_left, hdrop]
          rfl
        have hprev : prevOf b (i + 1) = some b[i] := by
          rw [prevOf, if_pos (Nat.succ_pos i), Nat.add_sub_cancel, List.getElem?_eq_getElem hlt]
        rw [hfind]
        simp only [Turn.next, turnOut, Turn.copyTo, hone, ih (Nat.succ_le_of_lt hlt), hprev]
        rfl
      | some r =>
        obtain ⟨v, n⟩ := r
        have hn := findAt_bounds hf
        rw [hf, Option.map_some] at hfind
        have hle : i + n ≤ b.length := by
          rw [List.length_drop] at hn
          omega
        have hprev : prevOf b (i + n) = (b.drop i)[n - 1]? := by
          rw [prevOf, if_pos (by omega), List.getElem?_drop]
          apply congrArg (fun p => b[p]?)
          omega
        have hslice : slice b i (i + v) = (b.drop i).take v := by
          rw [slice, Nat.add_sub_cancel_left]
        rw [hfind]
        simp only [Turn.next, turnOut, Turn.copyTo, hslice, ih hle, hprev, Option.isSome_some, if_true,
          List.drop_drop]
    · have hend : b.drop i = [] := List.drop_eq_nil_of_le (Nat.le_of_not_lt hlt)
      rw [if_neg hlt, hend]
      rfl

theorem redactOut_eq (b : Bytes) : redactOut b = redactRest none b := by
  have h := flatMap_turns (b := b) b.length (Nat.zero_le _)
  exact h

/-- What the scan makes of the text from a place on. -/
def restOut (b : Bytes) (i : ℕ) : Bytes := redactRest (prevOf b i) (b.drop i)

/-- By the scan's turns, the last first: a byte that is copied, or a match that is masked. -/
theorem restOut_induction {motive : ℕ → Prop} {j : ℕ} (stop : ∀ j, b.length ≤ j → restOut b j = [] → motive j)
    (copy : ∀ j c, b[j]? = some c → findSecret b j = none → restOut b j = c :: restOut b (j + 1) →
      motive (j + 1) → motive j)
    (mask : ∀ j w m, findSecret b j = some (w, m) → restOut b j = slice b j w ++ maskText ++ restOut b m →
      motive m → motive j) : motive j := by
  induction hk : b.length - j using Nat.strong_induction_on generalizing j with
  | _ k ih =>
    rcases Nat.lt_or_ge j b.length with hlt | hge
    swap
    · apply stop j hge
      rw [restOut, List.drop_eq_nil_of_le hge]
      rfl
    have hfind := findSecret_drop hlt.le
    have hdrop : b.drop j = b[j] :: b.drop (j + 1) := List.drop_eq_getElem_cons hlt
    cases hf : findAt (prevOf b j) (b.drop j) with
    | none =>
      rw [hf, Option.map_none] at hfind
      have hprev : prevOf b (j + 1) = some b[j] := by
        rw [prevOf, if_pos (Nat.succ_pos j), Nat.add_sub_cancel, List.getElem?_eq_getElem hlt]
      have hout : restOut b j = b[j] :: restOut b (j + 1) := by
        rw [hdrop] at hf
        rw [restOut, restOut, hdrop, redactRest_none hf, hprev]
      exact copy j b[j] (List.getElem?_eq_getElem hlt) hfind hout (ih _ (by omega) rfl)
    | some r =>
      obtain ⟨w, m⟩ := r
      have hm := findAt_bounds hf
      rw [hf, Option.map_some] at hfind
      have hprev : prevOf b (j + m) = (b.drop j)[m - 1]? := by
        rw [prevOf, if_pos (by omega), List.getElem?_drop]
        apply congrArg (fun p => b[p]?)
        omega
      have hout : restOut b j = slice b j (j + w) ++ maskText ++ restOut b (j + m) := by
        rw [restOut, restOut, redactRest_some hf, hprev, slice, Nat.add_sub_cancel_left, List.drop_drop]
      exact mask j (j + w) (j + m) hfind hout (ih _ (by omega) rfl)

theorem redactOut_eq_restOut (b : Bytes) : redactOut b = restOut b 0 := redactOut_eq b

/-- Behind two bytes of which neither goes on a token, a text is matched alike. -/
theorem redactRest_left {prev' : Option UInt8} (h : prev.any isB64url = false)
    (h' : prev'.any isB64url = false) :
    redactRest prev s = redactRest prev' s := by
  have hhex {o : Option UInt8} (ho : o.any isB64url = false) : o.any isAsciiHexdigit = false := by
    cases o with
    | none => rfl
    | some c =>
      have hc := @byte_all (fun c => isB64url c || !isAsciiHexdigit c) (by decide +kernel) c
      rw [Option.any_some] at ho ⊢
      simpa [ho] using hc
  have hfind : findAt prev s = findAt prev' s := by
    unfold findAt redactToken
    rw [h, h', hhex h, hhex h']
  cases s with
  | nil => rfl
  | cons c s =>
    cases hf : findAt prev (c :: s) with
    | none => rw [redactRest_none hf, redactRest_none (hfind ▸ hf)]
    | some r =>
      have hf' : findAt prev' (c :: s) = some r := hfind ▸ hf
      exact (redactRest_some hf).trans (redactRest_some hf').symm

end

end CtAgent.Redact
