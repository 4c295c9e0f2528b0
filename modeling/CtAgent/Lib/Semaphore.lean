import Mathlib.Tactic
import Mathlib.Algebra.Order.BigOperators.Group.List

/-! A fair counting semaphore whose waiters queue in order and may hold part of what they asked
for. Free permits and the permits of the waiters together are `total`. -/
namespace CtAgent.Lib

variable {κ : Type*}

/-- Erasing the first element found takes its summand away. -/
theorem sum_map_eraseP {α : Type*} (p : α → Bool) (f : α → ℕ) {xs : List α} {x : α}
    (h : xs.find? p = some x) : ((xs.eraseP p).map f).sum + f x = (xs.map f).sum := by
  induction xs with
  | nil => simp at h
  | cons y xs ih =>
    by_cases hy : p y = true
    · rw [List.find?_cons_of_pos hy, Option.some.injEq] at h
      subst h
      rw [List.eraseP_cons_of_pos hy, List.map_cons, List.sum_cons]
      omega
    · rw [List.find?_cons_of_neg hy] at h
      have hh := ih h
      rw [List.eraseP_cons_of_neg hy, List.map_cons, List.map_cons, List.sum_cons, List.sum_cons]
      omega

structure Waiter (κ : Type*) where
  key : κ
  need : ℕ
  held : ℕ
  deriving DecidableEq, Repr

structure Semaphore (κ : Type*) where
  free : ℕ
  waiters : List (Waiter κ)
  deriving DecidableEq, Repr

namespace Semaphore

def new (permits : ℕ) : Semaphore κ := ⟨permits, []⟩

/-- Permits held by waiters, granted in part or in full and not yet taken away. -/
def held (s : Semaphore κ) : ℕ := (s.waiters.map Waiter.held).sum

def total (s : Semaphore κ) : ℕ := s.free + s.held

/-- Hand `n` permits to the waiters, oldest first; the first component is what is left over. -/
def grant : ℕ → List (Waiter κ) → ℕ × List (Waiter κ)
  | n, [] => (n, [])
  | n, w :: ws =>
    let g := min n (w.need - w.held)
    ((grant (n - g) ws).1, { w with held := w.held + g } :: (grant (n - g) ws).2)

def addPermits (n : ℕ) (s : Semaphore κ) : Semaphore κ :=
  ⟨s.free + (grant n s.waiters).1, (grant n s.waiters).2⟩

/-- The first poll of an acquire of `n` permits: `true` when it is ready at once. One that has to
wait takes every free permit along. -/
def acquire (k : κ) (n : ℕ) (s : Semaphore κ) : Bool × Semaphore κ :=
  if n ≤ s.free then (true, ⟨s.free - n, s.waiters⟩)
  else (false, ⟨0, s.waiters ++ [⟨k, n, s.free⟩]⟩)

variable [DecidableEq κ]

def waiter? (k : κ) (s : Semaphore κ) : Option (Waiter κ) := s.waiters.find? (fun w => w.key = k)

def remove (k : κ) (s : Semaphore κ) : Semaphore κ :=
  ⟨s.free, s.waiters.eraseP (fun w => w.key = k)⟩

/-- A later poll of a waiting acquire: ready once everything it needs was granted. -/
def complete (k : κ) (s : Semaphore κ) : Option (ℕ × Semaphore κ) :=
  match s.waiter? k with
  | some w => if w.held = w.need then some (w.need, s.remove k) else none
  | none => none

/-- The waiting acquire is dropped: what it held goes to the waiters behind it, then to `free`. -/
def cancel (k : κ) (s : Semaphore κ) : Semaphore κ :=
  match s.waiter? k with
  | some w => (s.remove k).addPermits w.held
  | none => s

omit [DecidableEq κ] in
theorem grant_sum (n : ℕ) (ws : List (Waiter κ)) :
    (grant n ws).1 + ((grant n ws).2.map Waiter.held).sum = n + (ws.map Waiter.held).sum := by
  induction ws generalizing n with
  | nil => simp [grant]
  | cons w ws ih =>
    have hg : min n (w.need - w.held) ≤ n := Nat.min_le_left _ _
    have h := ih (n - min n (w.need - w.held))
    simp only [grant, List.map_cons, List.sum_cons]
    omega

omit [DecidableEq κ] in
@[simp] theorem total_new (n : ℕ) : (new n : Semaphore κ).total = n := by
  simp [total, held, new]

omit [DecidableEq κ] in
@[simp] theorem total_addPermits (n : ℕ) (s : Semaphore κ) : (s.addPermits n).total = s.total + n := by
  have h := grant_sum n s.waiters
  simp only [total, held, addPermits] at h ⊢
  omega

omit [DecidableEq κ] in
theorem total_acquire_ready {k : κ} {n : ℕ} {s t : Semaphore κ} (h : s.acquire k n = (true, t)) :
    t.total + n = s.total := by
  unfold acquire at h
  split at h
  · cases h
    simp only [total, held]
    omega
  · cases h

omit [DecidableEq κ] in
theorem total_acquire_wait {k : κ} {n : ℕ} {s t : Semaphore κ} (h : s.acquire k n = (false, t)) :
    t.total = s.total := by
  unfold acquire at h
  split at h
  · cases h
  · cases h
    simp only [total, held, List.map_append, List.map_cons, List.map_nil, List.sum_append,
      List.sum_cons, List.sum_nil]
    omega

theorem total_remove {k : κ} {s : Semaphore κ} {w : Waiter κ} (h : s.waiter? k = some w) :
    (s.remove k).total + w.held = s.total := by
  have hh := sum_map_eraseP _ Waiter.held h
  simp only [total, held, remove]
  omega

theorem total_complete {k : κ} {n : ℕ} {s t : Semaphore κ} (h : s.complete k = some (n, t)) :
    t.total + n = s.total := by
  unfold complete at h
  split at h
  · rename_i w hw
    split at h
    · rename_i he
      cases h
      rw [← he]
      exact total_remove hw
    · cases h
  · cases h

@[simp] theorem total_cancel (k : κ) (s : Semaphore κ) : (s.cancel k).total = s.total := by
  unfold cancel
  split
  · rename_i w hw
    rw [total_addPermits]
    exact total_remove hw
  · rfl

/-- Who waits, and for how much. -/
def asks (s : Semaphore κ) : List (κ × ℕ) := s.waiters.map (fun w => (w.key, w.need))

omit [DecidableEq κ] in
theorem asks_grant (n : ℕ) (ws : List (Waiter κ)) :
    (grant n ws).2.map (fun w => (w.key, w.need)) = ws.map (fun w => (w.key, w.need)) := by
  induction ws generalizing n with
  | nil => rfl
  | cons w ws ih => simp only [grant, List.map_cons, ih]

omit [DecidableEq κ] in
@[simp] theorem asks_addPermits (n : ℕ) (s : Semaphore κ) : (s.addPermits n).asks = s.asks :=
  asks_grant n s.waiters

omit [DecidableEq κ] in
theorem asks_acquire_ready {k : κ} {n : ℕ} {s t : Semaphore κ} (h : s.acquire k n = (true, t)) :
    t.asks = s.asks := by
  unfold acquire at h
  split at h
  · cases h
    rfl
  · cases h

omit [DecidableEq κ] in
theorem asks_acquire_wait {k : κ} {n : ℕ} {s t : Semaphore κ} (h : s.acquire k n = (false, t)) :
    t.asks = s.asks ++ [(k, n)] := by
  unfold acquire at h
  split at h
  · cases h
  · cases h
    simp [asks]

theorem asks_remove (k : κ) (s : Semaphore κ) :
    (s.remove k).asks = s.asks.eraseP (fun x => x.1 = k) := by
  simp only [asks, remove, List.eraseP_map]
  rfl

theorem asks_cancel (k : κ) (s : Semaphore κ) :
    (s.cancel k).asks = s.asks.eraseP (fun x => x.1 = k) := by
  unfold cancel
  split
  · rw [asks_addPermits, asks_remove]
  · rename_i hn
    rw [← asks_remove, remove, List.eraseP_of_forall_not (List.find?_eq_none.mp hn)]

theorem asks_complete {k : κ} {n : ℕ} {s t : Semaphore κ} (h : s.complete k = some (n, t)) :
    (k, n) ∈ s.asks ∧ t.asks = s.asks.eraseP (fun x => x.1 = k) := by
  unfold complete at h
  split at h
  · rename_i w hw
    split at h
    · cases h
      have hk : w.key = k := by simpa using List.find?_some hw
      refine ⟨?_, asks_remove k s⟩
      rw [← hk]
      exact List.mem_map_of_mem (List.mem_of_find?_eq_some hw)
    · cases h
  · cases h

omit [DecidableEq κ] in
theorem grant_le (n : ℕ) (ws : List (Waiter κ)) : (grant n ws).1 ≤ n := by
  induction ws generalizing n with
  | nil => exact Nat.le_refl n
  | cons w ws ih => exact (ih _).trans (Nat.sub_le _ _)

omit [DecidableEq κ] in
/-- Waiters that have all they need are left as they are. -/
theorem grant_served (n : ℕ) {ws : List (Waiter κ)} (h : ∀ w ∈ ws, w.held = w.need) : (grant n ws).2 = ws := by
  induction ws generalizing n with
  | nil => rfl
  | cons w ws ih =>
    have hw := h w (List.mem_cons_self ..)
    have hg : min n (w.need - w.held) = 0 := by omega
    simp only [grant, hg, Nat.add_zero, ih _ (fun v hv => h v (List.mem_cons_of_mem _ hv))]

/-- No waiter holds more than it needs, and no permit is free while a waiter needs more. -/
structure Tight (s : Semaphore κ) : Prop where
  held_le : ∀ w ∈ s.waiters, w.held ≤ w.need
  served : 0 < s.free → ∀ w ∈ s.waiters, w.held = w.need

omit [DecidableEq κ] in
theorem tight_new (n : ℕ) : (new n : Semaphore κ).Tight :=
  ⟨fun _ hw => absurd hw List.not_mem_nil, fun _ _ hw => absurd hw List.not_mem_nil⟩

omit [DecidableEq κ] in
theorem Tight.acquire {k : κ} {n : ℕ} {ready : Bool} {s t : Semaphore κ} (h : s.Tight)
    (ha : s.acquire k n = (ready, t)) : t.Tight := by
  unfold Semaphore.acquire at ha
  split at ha
  · rename_i hn
    cases ha
    refine ⟨h.held_le, fun hf => h.served ?_⟩
    change 0 < s.free - n at hf
    omega
  · rename_i hn
    cases ha
    refine ⟨fun w hw => ?_, fun hf => absurd hf (Nat.lt_irrefl 0)⟩
    rcases List.mem_append.mp hw with hw | hw
    · exact h.held_le w hw
    · rw [List.mem_singleton.mp hw]
      exact (Nat.lt_of_not_le hn).le

omit [DecidableEq κ] in
/-- Permits are left over only when every waiter has got all it needs. -/
theorem grant_tight (n : ℕ) {ws : List (Waiter κ)} (h : ∀ w ∈ ws, w.held ≤ w.need) :
    (∀ w ∈ (grant n ws).2, w.held ≤ w.need) ∧
    (0 < (grant n ws).1 → ∀ w ∈ (grant n ws).2, w.held = w.need) := by
  induction ws generalizing n with
  | nil => simp [grant]
  | cons v ws ih =>
    have hv := h v (List.mem_cons_self ..)
    obtain ⟨hle, hserved⟩ := ih (n - min n (v.need - v.held)) (fun w hw => h w (List.mem_cons_of_mem _ hw))
    refine ⟨fun w hw => ?_, fun hleft w hw => ?_⟩
    · rcases List.mem_cons.mp hw with rfl | hw
      · change v.held + min n (v.need - v.held) ≤ v.need
        omega
      · exact hle w hw
    · rcases List.mem_cons.mp hw with rfl | hw
      · -- what is left over was not needed here
        have hrest : (grant (n - min n (v.need - v.held)) ws).1 ≤ n - min n (v.need - v.held) :=
          grant_le _ ws
        change 0 < (grant (n - min n (v.need - v.held)) ws).1 at hleft
        change v.held + min n (v.need - v.held) = v.need
        omega
      · exact hserved hleft w hw

omit [DecidableEq κ] in
theorem Tight.addPermits {s : Semaphore κ} (h : s.Tight) (n : ℕ) : (s.addPermits n).Tight := by
  obtain ⟨hle, hserved⟩ := grant_tight n h.held_le
  refine ⟨hle, fun hf => ?_⟩
  by_cases hs : 0 < s.free
  · -- everybody had all it needs, and keeps it
    have hkeep : (s.addPermits n).waiters = s.waiters := grant_served n (h.served hs)
    rw [hkeep]
    exact h.served hs
  · apply hserved
    change 0 < s.free + (grant n s.waiters).1 at hf
    omega

theorem Tight.remove {s : Semaphore κ} (h : s.Tight) (k : κ) : (s.remove k).Tight where
  held_le w hw := h.held_le w (List.mem_of_mem_eraseP hw)
  served hf w hw := h.served hf w (List.mem_of_mem_eraseP hw)

theorem Tight.complete {k : κ} {n : ℕ} {s t : Semaphore κ} (h : s.Tight) (hc : s.complete k = some (n, t)) :
    t.Tight := by
  unfold Semaphore.complete at hc
  split at hc
  · split at hc
    · cases hc
      exact h.remove k
    · cases hc
  · cases hc

theorem Tight.cancel {s : Semaphore κ} (h : s.Tight) (k : κ) : (s.cancel k).Tight := by
  unfold Semaphore.cancel
  split
  · exact (h.remove k).addPermits _
  · exact h

theorem waiter?_none {k : κ} {s : Semaphore κ} (h : s.waiter? k = none) : ∀ x ∈ s.asks, x.1 ≠ k := by
  intro x hx
  obtain ⟨w, hw, rfl⟩ := List.mem_map.mp hx
  simpa using List.find?_eq_none.mp h w hw

end Semaphore

/-- With distinct keys, erasing a key leaves the others and no more of it. -/
theorem mem_eraseP_key {α β : Type*} [DecidableEq α] {xs : List (α × β)} (h : (xs.map Prod.fst).Nodup)
    {k : α} {x : α × β} (hx : x ∈ xs.eraseP (fun y => y.1 = k)) : x ∈ xs ∧ x.1 ≠ k := by
  refine ⟨List.mem_of_mem_eraseP hx, ?_⟩
  induction xs with
  | nil => simp at hx
  | cons y ys ih =>
    rw [List.map_cons, List.nodup_cons] at h
    by_cases hy : y.1 = k
    · rw [List.eraseP_cons_of_pos (by simpa using hy)] at hx
      intro hk
      exact h.1 (List.mem_map.mpr ⟨x, hx, hk.trans hy.symm⟩)
    · rw [List.eraseP_cons_of_neg (by simpa using hy)] at hx
      rcases List.mem_cons.mp hx with rfl | hx
      · exact hy
      · exact ih h.2 hx

theorem nodup_eraseP_key {α β : Type*} {xs : List (α × β)} (h : (xs.map Prod.fst).Nodup)
    (p : α × β → Bool) : ((xs.eraseP p).map Prod.fst).Nodup :=
  h.sublist (List.eraseP_sublist.map Prod.fst)

end CtAgent.Lib
