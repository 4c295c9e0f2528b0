import Mathlib.Tactic

/-! A limiter of so many passes in a fixed window, which counts what it holds back and hands the count out
with the next pass; one budget for each key. The calls may come with any clock readings. -/
namespace CtAgent.Lib

structure Budget where
  windowStart : ℕ
  used : ℕ
  suppressed : ℕ
  deriving DecidableEq, Repr

namespace Budget
variable (limit window : ℕ)

/-- One call: `some n` passes and tells of `n` that did not since the last pass. -/
def allow (b : Budget) (now : ℕ) : Budget × Option ℕ :=
  let b := if window ≤ now - b.windowStart then { b with windowStart := now, used := 0 } else b
  if limit ≤ b.used then ({ b with suppressed := b.suppressed + 1 }, none)
  else ({ b with used := b.used + 1, suppressed := 0 }, some b.suppressed)

/-- The calls in the order they have the lock. -/
def allowAll (b : Budget) : List ℕ → Budget × List (Option ℕ)
  | [] => (b, [])
  | now :: nows =>
    let r := b.allow limit window now
    let rest := r.1.allowAll nows
    (rest.1, r.2 :: rest.2)

/-- What a result stands for: the pass and those it tells of. -/
def told : Option ℕ → ℕ
  | some n => n + 1
  | none => 0

variable {limit window}

theorem allow_told (b : Budget) (now : ℕ) :
    told (b.allow limit window now).2 + (b.allow limit window now).1.suppressed = b.suppressed + 1 := by
  unfold allow
  dsimp only
  split
  · split <;> simp [told]
  · split <;> simp [told]

theorem allow_used_le (b : Budget) (hb : b.used ≤ limit) (now : ℕ) :
    (b.allow limit window now).1.used ≤ limit := by
  unfold allow
  dsimp only
  split
  · split
    · exact Nat.zero_le _
    · dsimp only at *
      omega
  · split
    · exact hb
    · dsimp only
      omega

/-- In the window that is open, calls within a window of its start use up what is left of it. -/
theorem allowAll_open {a : ℕ} (b : Budget) (hb : b.used ≤ limit) (ha : a ≤ b.windowStart) (nows : List ℕ)
    (hin : ∀ now ∈ nows, a ≤ now ∧ now < a + window) :
    ((b.allowAll limit window nows).2.countP Option.isSome) + b.used ≤ limit := by
  induction nows generalizing b with
  | nil => simpa [allowAll] using hb
  | cons now nows ih =>
    have hnow := hin now (List.mem_cons_self ..)
    have hopen : ¬ window ≤ now - b.windowStart := by omega
    have hrest := fun b' h1 h2 => ih b' h1 h2 (fun n hn => hin n (List.mem_cons_of_mem _ hn))
    simp only [allowAll, allow, if_neg hopen]
    split
    · rename_i hfull
      have h := hrest { b with suppressed := b.suppressed + 1 } hb ha
      simpa using h
    · rename_i hleft
      have h := hrest { b with used := b.used + 1, suppressed := 0 } (by dsimp only; omega) ha
      simp only [List.countP_cons, Option.isSome_some, if_true]
      dsimp only at h
      omega

/-- Calls that follow each other with readings within one window's length meet two windows at most. -/
theorem allowAll_le (b : Budget) (hb : b.used ≤ limit) (a : ℕ) (nows : List ℕ)
    (hin : ∀ now ∈ nows, a ≤ now ∧ now < a + window) :
    (b.allowAll limit window nows).2.countP Option.isSome ≤ limit - b.used + limit := by
  induction nows generalizing b with
  | nil => simp [allowAll]
  | cons now nows ih =>
    have hrest := fun b' h1 => ih b' h1 (fun n hn => hin n (List.mem_cons_of_mem _ hn))
    by_cases hnew : window ≤ now - b.windowStart
    · -- the second window is open from here on
      have hopen : ((Budget.allowAll limit window { b with windowStart := now, used := 0 }
        (now :: nows)).2.countP
          Option.isSome) + 0 ≤ limit :=
        allowAll_open _ (Nat.zero_le _) (hin now (List.mem_cons_self ..)).1 (now :: nows) hin
      have hsame : (b.allowAll limit window (now :: nows)).2 =
          (Budget.allowAll limit window { b with windowStart := now, used := 0 } (now :: nows)).2 := by
        simp only [allowAll, allow, if_pos hnew, Nat.sub_self]
        by_cases hw : window ≤ 0 <;> simp [hw]
      rw [hsame]
      omega
    · simp only [allowAll, allow, if_neg hnew]
      split
      · rename_i hfull
        have h := hrest { b with suppressed := b.suppressed + 1 } hb
        simpa using h
      · rename_i hleft
        have h := hrest { b with used := b.used + 1, suppressed := 0 } (by dsimp only; omega)
        simp only [List.countP_cons, Option.isSome_some, if_true]
        dsimp only at h
        omega

end Budget

section Keys
variable {κ : Type*} [DecidableEq κ] (limit window : ℕ)

/-- A budget for each key, made with its first call. -/
abbrev Budgets (κ : Type*) := κ → Option Budget

def Budgets.allow (B : Budgets κ) (key : κ) (now : ℕ) : Budgets κ × Option ℕ :=
  let r := ((B key).getD ⟨now, 0, 0⟩).allow limit window now
  (Function.update B key (some r.1), r.2)

def Budgets.allowAll (B : Budgets κ) : List (κ × ℕ) → Budgets κ × List (κ × ℕ × Option ℕ)
  | [] => (B, [])
  | (key, now) :: calls =>
    let r := B.allow limit window key now
    let rest := Budgets.allowAll r.1 calls
    (rest.1, (key, now, r.2) :: rest.2)

variable {limit window}

/-- The clock readings a key's calls came with. -/
def readings (key : κ) (calls : List (κ × ℕ)) : List ℕ := (calls.filter (fun c => c.1 = key)).map Prod.snd

/-- What a key's calls were told. -/
def resultsOf (key : κ) (rs : List (κ × ℕ × Option ℕ)) : List (Option ℕ) :=
  (rs.filter (fun r => r.1 = key)).map (fun r => r.2.2)

/-- A key is told what it would be told alone. -/
theorem Budgets.allowAll_alone (key : κ) (calls : List (κ × ℕ)) : ∀ (B : Budgets κ) (b : Budget),
    B key = some b →
    ((B.allowAll limit window calls).1 key = some (b.allowAll limit window (readings key calls)).1 ∧
      resultsOf key (B.allowAll limit window calls).2 = (b.allowAll limit window (readings key calls)).2) := by
  induction calls with
  | nil =>
    intro B b hb
    exact ⟨hb, rfl⟩
  | cons c calls ih =>
    intro B b hb
    obtain ⟨k, now⟩ := c
    by_cases hk : k = key
    · subst hk
      have h := ih (B.allow limit window k now).1 (b.allow limit window now).1 (by simp [Budgets.allow, hb])
      have hr : (B.allow limit window k now).2 = (b.allow limit window now).2 := by simp [Budgets.allow, hb]
      have hread : readings k ((k, now) :: calls) = now :: readings k calls := by simp [readings]
      rw [hread]
      refine ⟨h.1, ?_⟩
      simp only [Budgets.allowAll, Budget.allowAll, resultsOf, List.filter_cons, decide_true, if_true,
        List.map_cons, hr]
      exact congrArg _ h.2
    · have h := ih (B.allow limit window k now).1 b
        (by simp [Budgets.allow, Function.update_of_ne (Ne.symm hk), hb])
      have hread : readings key ((k, now) :: calls) = readings key calls := by simp [readings, hk]
      rw [hread]
      refine ⟨h.1, ?_⟩
      simp only [Budgets.allowAll, resultsOf, List.filter_cons, decide_eq_true_eq, hk, if_false]
      exact h.2

/-- From no budgets at all: the same with the budget the first call makes. -/
theorem Budgets.allowAll_fresh (key : κ) (calls : List (κ × ℕ)) : ∀ (B : Budgets κ), B key = none →
    (readings key calls = [] ∧ (B.allowAll limit window calls).1 key = none ∧
        resultsOf key (B.allowAll limit window calls).2 = []) ∨
      ∃ start, (B.allowAll limit window calls).1 key =
          some ((Budget.mk start 0 0).allowAll limit window (readings key calls)).1 ∧
        resultsOf key (B.allowAll limit window calls).2 =
          ((Budget.mk start 0 0).allowAll limit window (readings key calls)).2 := by
  induction calls with
  | nil =>
    intro B hb
    exact .inl ⟨rfl, hb, rfl⟩
  | cons c calls ih =>
    intro B hb
    obtain ⟨k, now⟩ := c
    by_cases hk : k = key
    · subst hk
      right
      refine ⟨now, ?_⟩
      have hupd : Function.update B k (some ⟨now, 0, 0⟩) k = some ⟨now, 0, 0⟩ := Function.update_self ..
      have hsame : B.allowAll limit window ((k, now) :: calls) =
          Budgets.allowAll limit window (Function.update B k (some ⟨now, 0, 0⟩)) ((k, now) :: calls) := by
        simp [Budgets.allowAll, Budgets.allow, hb]
      rw [hsame]
      exact Budgets.allowAll_alone k ((k, now) :: calls) _ _ hupd
    · have h := ih (B.allow limit window k now).1
        (by simp [Budgets.allow, Function.update_of_ne (Ne.symm hk), hb])
      have hread : readings key ((k, now) :: calls) = readings key calls := by simp [readings, hk]
      have hres : resultsOf key (B.allowAll limit window ((k, now) :: calls)).2 =
          resultsOf key ((B.allow limit window k now).1.allowAll limit window calls).2 := by
        simp only [Budgets.allowAll, resultsOf, List.filter_cons, decide_eq_true_eq, hk, if_false]
      rw [hread, hres]
      exact h

/-- No budget is used beyond the limit. -/
def Budgets.Within (limit : ℕ) (B : Budgets κ) : Prop := ∀ key b, B key = some b → b.used ≤ limit

theorem Budgets.Within.allow {B : Budgets κ} (h : B.Within limit) (key : κ) (now : ℕ) :
    (B.allow limit window key now).1.Within limit := by
  intro k b hb
  unfold Budgets.allow at hb
  by_cases hk : k = key
  · subst hk
    simp only [Function.update_self, Option.some.injEq] at hb
    subst hb
    apply Budget.allow_used_le
    cases hB : B k with
    | none => exact Nat.zero_le _
    | some b => exact h k b hB
  · simp only [Function.update_of_ne hk] at hb
    exact h k b hb

/-- Calls of a key with readings within one window's length, whatever the other keys' calls between them:
twice the limit pass at most. -/
theorem Budgets.allowAll_le {B : Budgets κ} (h : B.Within limit) (key : κ) (calls : List (κ × ℕ)) (a : ℕ)
    (hin : ∀ now ∈ readings key calls, a ≤ now ∧ now < a + window) :
    (resultsOf key (B.allowAll limit window calls).2).countP Option.isSome ≤ 2 * limit := by
  cases hB : B key with
  | some b =>
    rw [(Budgets.allowAll_alone key calls B b hB).2]
    have hle := b.allowAll_le (h key b hB) a (readings key calls) hin
    omega
  | none =>
    have hfresh := @Budgets.allowAll_fresh κ _ limit window key calls B hB
    rcases hfresh with ⟨-, -, hnone⟩ | ⟨start, -, hres⟩
    · rw [hnone]
      exact Nat.zero_le _
    · rw [hres]
      have hle := (Budget.mk start 0 0).allowAll_le (Nat.zero_le limit) a (readings key calls) hin
      omega

end Keys

end CtAgent.Lib
