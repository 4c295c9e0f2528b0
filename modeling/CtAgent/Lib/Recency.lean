import Mathlib.Data.List.DropRight
import Mathlib.Data.List.Dedup

/-! The keys a history used last, in the order of their last use: what a least-recently-used store of
a given size holds. -/
namespace CtAgent.Lib

/-- The last `n` elements are all there are, or `n`. -/
theorem rtake_split {α : Type*} (l : List α) (n : ℕ) :
    ∃ front, l = front ++ l.rtake n ∧ ((l.rtake n).length = n ∨ (front = [] ∧ (l.rtake n).length < n)) := by
  refine ⟨l.take (l.length - n), (List.take_append_drop _ _).symm, ?_⟩
  have hlen : (l.rtake n).length = l.length - (l.length - n) := List.length_drop
  by_cases hn : n ≤ l.length
  · left
    omega
  · right
    have hzero : l.length - n = 0 := by omega
    rw [hzero]
    exact ⟨List.take_zero, by omega⟩

theorem rtake_append_of_length {α : Type*} {n : ℕ} {front back : List α} (h : back.length = n) :
    (front ++ back).rtake n = back := by
  rw [List.rtake, List.length_append, h, Nat.add_sub_cancel, List.drop_left]

theorem rtake_of_length_le {α : Type*} {n : ℕ} {l : List α} (h : l.length ≤ n) : l.rtake n = l := by
  rw [List.rtake, Nat.sub_eq_zero_of_le h, List.drop_zero]

section
variable {K : Type*} [DecidableEq K] {n : ℕ}

/-- The last `n` of the distinct keys of a history. -/
def lastUsed (n : ℕ) (uses : List K) : List K := uses.dedup.rtake n

/-- A use moves its key to the end. -/
theorem dedup_concat (uses : List K) (k : K) :
    (uses ++ [k]).dedup = uses.dedup.filter (· != k) ++ [k] := by
  induction uses with
  | nil => simp
  | cons a uses ih =>
    rw [List.cons_append]
    by_cases hk : a = k
    · subst hk
      have hmem : a ∈ uses ++ [a] := by simp
      rw [List.dedup_cons_of_mem hmem, ih]
      by_cases ha : a ∈ uses
      · rw [List.dedup_cons_of_mem ha]
      · rw [List.dedup_cons_of_notMem ha]
        simp
    · by_cases ha : a ∈ uses
      · have hmem : a ∈ uses ++ [k] := List.mem_append_left _ ha
        rw [List.dedup_cons_of_mem hmem, ih, List.dedup_cons_of_mem ha]
      · have hmem : a ∉ uses ++ [k] := by simp [ha, hk]
        rw [List.dedup_cons_of_notMem hmem, ih, List.dedup_cons_of_notMem ha,
          List.filter_cons_of_pos (by simpa using hk), List.cons_append]

/-- A use of a key that is held moves it to the end. -/
theorem lastUsed_held {uses : List K} {k : K} (hn : 0 < n) (h : k ∈ lastUsed n uses) :
    lastUsed n (uses ++ [k]) = (lastUsed n uses).erase k ++ [k] := by
  obtain ⟨n, rfl⟩ := Nat.exists_eq_add_one.mpr hn
  have hnodup := uses.nodup_dedup
  obtain ⟨front, hsplit, hlen⟩ := rtake_split uses.dedup (n + 1)
  unfold lastUsed at h ⊢
  generalize uses.dedup.rtake (n + 1) = back at h hsplit hlen ⊢
  rw [dedup_concat, List.rtake_concat_succ, hsplit]
  rw [hsplit] at hnodup
  have hback := (List.nodup_append.mp hnodup).2.1
  -- a key stands once, so it is not in front as well
  have hfront : front.filter (· != k) = front := by
    apply List.filter_eq_self.mpr
    intro a ha
    have hne := (List.nodup_append.mp hnodup).2.2 a ha k h
    simpa using hne
  have hcount := List.length_erase_of_mem h
  rw [List.filter_append, hfront, ← hback.erase_eq_filter]
  congr 1
  rcases hlen with hlen | ⟨rfl, hlen⟩
  · apply rtake_append_of_length
    omega
  · apply rtake_of_length_le
    rw [List.nil_append]
    omega

/-- A use of a key that is not held puts it at the end, and drops the key used longest ago where
there is no room. -/
theorem lastUsed_new {uses : List K} {k : K} (hn : 0 < n) (h : k ∉ lastUsed n uses) :
    lastUsed n (uses ++ [k]) =
      (if n ≤ (lastUsed n uses).length then (lastUsed n uses).tail else lastUsed n uses) ++ [k] := by
  obtain ⟨n, rfl⟩ := Nat.exists_eq_add_one.mpr hn
  obtain ⟨front, hsplit, hlen⟩ := rtake_split uses.dedup (n + 1)
  unfold lastUsed at h ⊢
  generalize uses.dedup.rtake (n + 1) = back at h hsplit hlen ⊢
  rw [dedup_concat, List.rtake_concat_succ, hsplit]
  have hback : back.filter (· != k) = back := by
    apply List.filter_eq_self.mpr
    intro a ha
    have hne : a ≠ k := fun he => h (he ▸ ha)
    simpa using hne
  rw [List.filter_append, hback]
  congr 1
  rcases hlen with hlen | ⟨rfl, hlen⟩
  · rw [if_pos hlen.ge]
    cases back with
    | nil => exact absurd hlen (by simp)
    | cons a back =>
      rw [← List.singleton_append, ← List.append_assoc]
      exact rtake_append_of_length (Nat.succ.inj hlen)
  · rw [if_neg (Nat.not_le_of_lt hlen), List.filter_nil, List.nil_append]
    exact rtake_of_length_le (Nat.le_of_lt_succ hlen)

theorem lastUsed_nodup (n : ℕ) (uses : List K) : (lastUsed n uses).Nodup :=
  uses.nodup_dedup.sublist (List.drop_sublist _ _)

theorem length_lastUsed (n : ℕ) (uses : List K) : (lastUsed n uses).length = min n uses.dedup.length := by
  rw [lastUsed, List.rtake, List.length_drop]
  omega

end

end CtAgent.Lib
