import Mathlib.Tactic

/-! Runs of a partial step function: `none` is an event the state does not admit. -/
namespace CtAgent.Lib

variable {σ ε : Type*}

/-- The state after a list of events, if every one of them is admitted. -/
def run (step : σ → ε → Option σ) : σ → List ε → Option σ
  | s, [] => some s
  | s, e :: es => (step s e).bind (fun t => run step t es)

def Reachable (step : σ → ε → Option σ) (s t : σ) : Prop := ∃ es, run step s es = some t

/-- The step restricted to the events a condition on the state before admits. -/
def guarded (step : σ → ε → Option σ) (ok : σ → ε → Bool) (s : σ) (e : ε) : Option σ :=
  if ok s e then step s e else none

theorem guarded_eq_some {step : σ → ε → Option σ} {ok : σ → ε → Bool} {s t : σ} {e : ε} :
    guarded step ok s e = some t ↔ ok s e = true ∧ step s e = some t := by
  unfold guarded
  split <;> simp_all

theorem run_cons (step : σ → ε → Option σ) (s t : σ) (e : ε) (es : List ε) :
    run step s (e :: es) = some t ↔ ∃ u, step s e = some u ∧ run step u es = some t := by
  simp only [run, Option.bind_eq_some_iff]

theorem run_append (step : σ → ε → Option σ) (s : σ) (es es' : List ε) :
    run step s (es ++ es') = (run step s es).bind (fun t => run step t es') := by
  induction es generalizing s with
  | nil => rfl
  | cons e es ih => simp only [List.cons_append, run, Option.bind_assoc, ih]

/-- A run that passes an event, cut there. -/
theorem run_split {step : σ → ε → Option σ} {s t : σ} {pre : List ε} {e : ε} {post : List ε}
    (h : run step s (pre ++ e :: post) = some t) :
    ∃ u v, run step s pre = some u ∧ step u e = some v ∧ run step v post = some t := by
  rw [run_append, Option.bind_eq_some_iff] at h
  obtain ⟨u, hu, h⟩ := h
  obtain ⟨v, hv, h⟩ := (run_cons step u t e post).mp h
  exact ⟨u, v, hu, hv, h⟩

/-- What holds at the start and is kept by every step holds after every run. -/
theorem run_invariant (step : σ → ε → Option σ) (P : σ → Prop)
    (hstep : ∀ s e t, P s → step s e = some t → P t) (es : List ε) (s t : σ)
    (hs : P s) (hr : run step s es = some t) : P t := by
  induction es generalizing s with
  | nil =>
    cases hr
    exact hs
  | cons e es ih =>
    obtain ⟨u, hu, hr⟩ := (run_cons step s t e es).mp hr
    exact ih u (hstep s e u hs hu) hr

/-- The same for events of one kind. -/
theorem run_invariant_of_mem {step : σ → ε → Option σ} {P : σ → Prop} {Q : ε → Prop}
    (hstep : ∀ s e t, Q e → P s → step s e = some t → P t) {es : List ε} {s t : σ}
    (hes : ∀ e ∈ es, Q e) (hs : P s) (hr : run step s es = some t) : P t := by
  induction es generalizing s with
  | nil =>
    cases hr
    exact hs
  | cons e es ih =>
    obtain ⟨u, hu, hr⟩ := (run_cons step s t e es).mp hr
    have hP : P u := hstep s e u (hes e (List.mem_cons_self ..)) hs hu
    exact ih (fun e' he' => hes e' (List.mem_cons_of_mem e he')) hP hr

theorem reachable_invariant {step : σ → ε → Option σ} {P : σ → Prop}
    (hstep : ∀ s e t, P s → step s e = some t → P t) {s t : σ}
    (hs : P s) (h : Reachable step s t) : P t := by
  obtain ⟨es, hr⟩ := h
  exact run_invariant step P hstep es s t hs hr

/-- A rank no step raises and each counted event lowers bounds how many of these a run has. -/
theorem run_rank {step : σ → ε → Option σ} {P : σ → Prop} {rank : σ → ℕ} {counted : ε → Bool}
    (hkeep : ∀ s e t, P s → step s e = some t → P t)
    (hrank : ∀ s e t, P s → step s e = some t → (if counted e then 1 else 0) + rank t ≤ rank s)
    {es : List ε} {s t : σ} (hs : P s) (hr : run step s es = some t) :
    es.countP counted + rank t ≤ rank s := by
  induction es generalizing s with
  | nil =>
    cases hr
    simp
  | cons e es ih =>
    obtain ⟨u, hu, hr⟩ := (run_cons step s t e es).mp hr
    have hrest : es.countP counted + rank t ≤ rank u := ih (hkeep s e u hs hu) hr
    have hstep := hrank s e u hs hu
    rw [List.countP_cons]
    omega

theorem Reachable.trans {step : σ → ε → Option σ} {s t u : σ} (h : Reachable step s t)
    (h' : Reachable step t u) : Reachable step s u := by
  obtain ⟨es, hr⟩ := h
  obtain ⟨es', hr'⟩ := h'
  exact ⟨es ++ es', by rw [run_append, hr, Option.bind_some, hr']⟩

/-- Every entry of a history stands in the relation to what came before it. -/
def EachAfter {α : Type*} (P : List α → α → Prop) (h : List α) : Prop :=
  ∀ pre x post, h = pre ++ x :: post → P pre x

theorem EachAfter.nil {α : Type*} (P : List α → α → Prop) : EachAfter P [] := by
  intro pre x post h
  simp at h

/-- Cutting a list in front of its last element: at the last element, or before it. -/
theorem cut_of_append_singleton {α : Type*} {h pre post : List α} {x y : α}
    (he : h ++ [y] = pre ++ x :: post) :
    post = [] ∧ pre = h ∧ x = y ∨ ∃ post', h = pre ++ x :: post' := by
  rcases List.eq_nil_or_concat post with rfl | ⟨post', z, rfl⟩
  · obtain ⟨hpre, hlast⟩ := List.append_inj' he rfl
    exact Or.inl ⟨rfl, hpre.symm, (List.cons.inj hlast).1.symm⟩
  · rw [List.concat_eq_append, ← List.cons_append, ← List.append_assoc] at he
    exact Or.inr ⟨post', (List.append_inj' he rfl).1⟩

theorem EachAfter.append {α : Type*} {P : List α → α → Prop} {h : List α} {y : α}
    (hh : EachAfter P h) (hy : P h y) : EachAfter P (h ++ [y]) := by
  intro pre x post he
  rcases cut_of_append_singleton he with ⟨-, rfl, rfl⟩ | ⟨post', hpre⟩
  · exact hy
  · exact hh pre x post' hpre

end CtAgent.Lib
