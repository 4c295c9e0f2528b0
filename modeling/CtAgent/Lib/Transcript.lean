import Mathlib.Tactic

/-! Fallible computations over a state that leave a transcript: the entries added by a run, in order,
kept where the run fails as well. -/
namespace CtAgent.Lib

def Talk (E σ ε α : Type) : Type := σ → Except ε α × σ × List E

namespace Talk
variable {E σ ε α β : Type}

def ret (a : α) : Talk E σ ε α := fun s => (.ok a, s, [])

def fail (e : ε) : Talk E σ ε α := fun s => (.error e, s, [])

def andThen (m : Talk E σ ε α) (k : α → Talk E σ ε β) : Talk E σ ε β := fun s =>
  match m s with
  | (.error e, t, es) => (.error e, t, es)
  | (.ok a, t, es) =>
    let (r, u, es') := k a t
    (r, u, es ++ es')

instance : Monad (Talk E σ ε) where
  pure := ret
  bind := andThen

/-- Add an entry. -/
def say (e : E) : Talk E σ ε Unit := fun s => (.ok (), s, [e])

def get : Talk E σ ε σ := fun s => (.ok s, s, [])

def modify (f : σ → σ) : Talk E σ ε Unit := fun s => (.ok (), f s, [])

/-- An outcome from outside. -/
def lift (r : Except ε α) : Talk E σ ε α := fun s => (r, s, [])

theorem ret_ok {a b : α} {s t : σ} {es : List E} (h : (pure a : Talk E σ ε α) s = (.ok b, t, es)) :
    a = b ∧ s = t ∧ es = [] := by
  obtain ⟨h1, h2⟩ := Prod.mk.inj h
  obtain ⟨h2, h3⟩ := Prod.mk.inj h2
  exact ⟨Except.ok.inj h1, h2, h3.symm⟩

theorem fail_ok {e : ε} {b : α} {s t : σ} {es : List E}
    (h : (fail e : Talk E σ ε α) s = (.ok b, t, es)) : False := by
  exact absurd (Prod.mk.inj h).1 nofun

/-- A run of two steps that succeeds, taken apart. -/
theorem of_bind_ok {m : Talk E σ ε α} {k : α → Talk E σ ε β} {s u : σ} {b : β} {es : List E}
    (h : (m >>= k) s = (.ok b, u, es)) :
    ∃ a t es₁ es₂, m s = (.ok a, t, es₁) ∧ k a t = (.ok b, u, es₂) ∧ es = es₁ ++ es₂ := by
  change andThen m k s = (.ok b, u, es) at h
  unfold andThen at h
  split at h
  · exact absurd (Prod.mk.inj h).1 nofun
  · rename_i a t es₁ hm
    obtain ⟨h1, h2⟩ := Prod.mk.inj h
    obtain ⟨h2, h3⟩ := Prod.mk.inj h2
    refine ⟨a, t, es₁, (k a t).2.2, hm, ?_, h3.symm⟩
    rw [← h1, ← h2]

/-- Every entry a run of `m` adds has the property, however the run ends. -/
structure Says (P : E → Prop) (m : Talk E σ ε α) : Prop where
  all : ∀ s, ∀ e ∈ (m s).2.2, P e

variable {P Q : E → Prop} {m : Talk E σ ε α} {k : α → Talk E σ ε β}

theorem Says.of_ok {s t : σ} {a : α} {es : List E} (h : Says P m) (hm : m s = (.ok a, t, es)) :
    ∀ e ∈ es, P e := by
  intro e he
  apply h.all s
  rw [hm]
  exact he

theorem Says.mono (h : Says P m) (hPQ : ∀ e, P e → Q e) : Says Q m :=
  ⟨fun s e he => hPQ e (h.all s e he)⟩

theorem Says.ret (a : α) : Says P (pure a : Talk E σ ε α) :=
  ⟨fun _ _ he => absurd he List.not_mem_nil⟩

theorem Says.fail (e : ε) : Says P (fail e : Talk E σ ε α) :=
  ⟨fun _ _ he => absurd he List.not_mem_nil⟩

theorem Says.lift (r : Except ε α) : Says P (lift r : Talk E σ ε α) :=
  ⟨fun _ _ he => absurd he List.not_mem_nil⟩

theorem Says.get : Says P (get : Talk E σ ε σ) :=
  ⟨fun _ _ he => absurd he List.not_mem_nil⟩

theorem Says.modify (f : σ → σ) : Says P (modify f : Talk E σ ε Unit) :=
  ⟨fun _ _ he => absurd he List.not_mem_nil⟩

theorem Says.say {e : E} (h : P e) : Says P (say e : Talk E σ ε Unit) := by
  constructor
  intro s e' he
  rw [List.mem_singleton.mp he]
  exact h

theorem Says.bind (hm : Says P m) (hk : ∀ a, Says P (k a)) : Says P (m >>= k) := by
  constructor
  intro s e he
  change e ∈ (andThen m k s).2.2 at he
  have hms := hm.all s
  unfold andThen at he
  split at he
  · rename_i x t es h
    rw [h] at hms
    exact hms e he
  · rename_i a t es h
    rw [h] at hms
    rcases List.mem_append.mp he with he | he
    · exact hms e he
    · exact (hk a).all t e he

/-- Every refusal of `m` has the property. -/
structure Fails (R : ε → Prop) (m : Talk E σ ε α) : Prop where
  all : ∀ s e t es, m s = (.error e, t, es) → R e

variable {R : ε → Prop}

theorem Fails.fail {e : ε} (h : R e) : Fails R (fail e : Talk E σ ε α) := by
  constructor
  intro s e' t es hs
  have he : e = e' := Except.error.inj (Prod.mk.inj hs).1
  exact he ▸ h

theorem Fails.lift {r : Except ε α} (h : ∀ e, r = .error e → R e) : Fails R (lift r : Talk E σ ε α) := by
  constructor
  intro s e t es hs
  exact h e (Prod.mk.inj hs).1

theorem Fails.of_total {f : σ → α × σ × List E} (h : ∀ s, m s = (.ok (f s).1, (f s).2)) : Fails R m := by
  constructor
  intro s e t es hs
  rw [h s] at hs
  exact absurd (Prod.mk.inj hs).1 nofun

theorem Fails.ret (a : α) : Fails R (pure a : Talk E σ ε α) :=
  Fails.of_total (f := fun s => (a, s, [])) (fun _ => rfl)

theorem Fails.bind (hm : Fails R m) (hk : ∀ a, Fails R (k a)) : Fails R (m >>= k) := by
  constructor
  intro s e u es h
  change andThen m k s = (.error e, u, es) at h
  unfold andThen at h
  split at h
  · rename_i e' t es' hms
    have he : e' = e := Except.error.inj (Prod.mk.inj h).1
    exact he ▸ hm.all s e' t es' hms
  · rename_i a t es' hms
    apply (hk a).all t e (k a t).2.1 (k a t).2.2
    rw [← (Prod.mk.inj h).1]

/-- No run of `m` adds more than `n` entries with the property, however it ends. -/
structure AtMost (P : E → Prop) [DecidablePred P] (n : ℕ) (m : Talk E σ ε α) : Prop where
  count : ∀ s, (m s).2.2.countP (fun e => decide (P e)) ≤ n

variable [DecidablePred P] {n : ℕ}

theorem Says.atMost (h : Says (fun e => ¬ P e) m) : AtMost P 0 m := by
  constructor
  intro s
  rw [Nat.le_zero, List.countP_eq_zero]
  intro e he
  simpa using h.all s e he

theorem AtMost.say (e : E) : AtMost P 1 (say e : Talk E σ ε Unit) := ⟨fun _ => List.countP_le_length⟩

/-- What the first step adds may be counted with what it returns. -/
theorem AtMost.bind_of {b : α → ℕ} (herr : AtMost P n m)
    (hok : ∀ s a t es, m s = (.ok a, t, es) → es.countP (fun e => decide (P e)) + b a ≤ n)
    (hk : ∀ a, AtMost P (b a) (k a)) : AtMost P n (m >>= k) := by
  constructor
  intro s
  change (andThen m k s).2.2.countP _ ≤ n
  unfold andThen
  split
  · rename_i x t es h
    have hcount := herr.count s
    rw [h] at hcount
    exact hcount
  · rename_i a t es h
    rw [List.countP_append]
    exact (Nat.add_le_add_left ((hk a).count t) _).trans (hok s a t es h)

theorem AtMost.after (hm : Says (fun e => ¬ P e) m) (hk : ∀ a, AtMost P n (k a)) : AtMost P n (m >>= k) := by
  apply AtMost.bind_of (b := fun _ => n) ⟨fun s => (hm.atMost.count s).trans (Nat.zero_le n)⟩ _ hk
  intro s a t es h
  have hnone : es.countP (fun e => decide (P e)) ≤ 0 := by
    have hcount := hm.atMost.count s
    rw [h] at hcount
    exact hcount
  rw [Nat.le_zero.mp hnone, Nat.zero_add]

theorem AtMost.before (hm : AtMost P n m) (hk : ∀ a, Says (fun e => ¬ P e) (k a)) : AtMost P n (m >>= k) := by
  apply AtMost.bind_of (b := fun _ => 0) hm _ (fun a => (hk a).atMost)
  intro s a t es h
  have hcount := hm.count s
  rw [h] at hcount
  exact hcount

end Talk
end CtAgent.Lib
