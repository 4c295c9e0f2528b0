import CtAgent.Lib.Run

/-! Invariants over a state and the run that led to it, what happened somewhere in a run, and the counts of
a table whose entries change in place. -/
namespace CtAgent.Lib

section History
variable {σ ε : Type*}

/-- What holds of the empty run and is kept by every admitted event holds of every run and its end. -/
theorem run_history {step : σ → ε → Option σ} {s₀ : σ} {I : List ε → σ → Prop} (h0 : I [] s₀)
    (hstep : ∀ es s e t, run step s₀ es = some s → I es s → step s e = some t → I (es ++ [e]) t)
    {es : List ε} {t : σ} (hr : run step s₀ es = some t) : I es t := by
  induction es using List.reverseRecOn generalizing t with
  | nil =>
    cases hr
    exact h0
  | append_singleton es e ih =>
    rw [run_append, Option.bind_eq_some_iff] at hr
    obtain ⟨s, hs, hr⟩ := hr
    obtain ⟨u, hu, hr⟩ := (run_cons step s t e []).mp hr
    cases hr
    exact hstep es s e t hs (ih hs) hu

/-- Somewhere in the run stands an event that is in the relation to what came before it. -/
def Happened (P : List ε → ε → Prop) (es : List ε) : Prop := ∃ pre e post, es = pre ++ e :: post ∧ P pre e

theorem Happened.later {P : List ε → ε → Prop} {es : List ε} (h : Happened P es) (e : ε) :
    Happened P (es ++ [e]) := by
  obtain ⟨pre, x, post, he, hx⟩ := h
  exact ⟨pre, x, post ++ [e], by simp [he], hx⟩

theorem Happened.last {P : List ε → ε → Prop} {es : List ε} {e : ε} (h : P es e) : Happened P (es ++ [e]) :=
  ⟨es, e, [], rfl, h⟩

theorem Happened.imp {P Q : List ε → ε → Prop} {es : List ε} (h : Happened P es)
    (hPQ : ∀ pre e, P pre e → Q pre e) : Happened Q es := by
  obtain ⟨pre, x, post, he, hx⟩ := h
  exact ⟨pre, x, post, he, hPQ pre x hx⟩

end History

section Tally
variable {α : Type*}

/-- One entry changed, counted. -/
theorem countP_put {l : List α} {i : ℕ} {x : α} (hx : l[i]? = some x) (p : α → Bool) (y : α) :
    (l.set i y).countP p + (if p x then 1 else 0) = l.countP p + (if p y then 1 else 0) := by
  obtain ⟨hlt, hget⟩ := List.getElem?_eq_some_iff.mp hx
  have hset := List.countP_set (p := p) (a := y) hlt
  have hone : (if p l[i] then 1 else 0) ≤ l.countP p := by
    split
    · rename_i hp
      exact List.countP_pos_iff.mpr ⟨l[i], List.getElem_mem hlt, hp⟩
    · exact Nat.zero_le _
  rw [hget] at hset hone
  omega

theorem countP_push (l : List α) (p : α → Bool) (y : α) :
    (l ++ [y]).countP p = l.countP p + (if p y then 1 else 0) := by
  rw [List.countP_append, List.countP_singleton]

/-- A change that no entry's condition sees. -/
theorem countP_map_of_eq {l : List α} {p : α → Bool} {f : α → α} (h : ∀ x ∈ l, p (f x) = p x) :
    (l.map f).countP p = l.countP p := by
  rw [List.countP_map]
  apply List.countP_congr
  intro x hx
  simp only [Function.comp_apply, h x hx]

end Tally

end CtAgent.Lib
