import Mathlib.Tactic

/-! `RevocationView` and the `RevocationTracker`s that feed it (serve.rs). -/
namespace CtAgent.Serve

/-- What one registration attempt told the agent about its token. -/
inductive RegistrationOutcome
  | succeeded
  | refusedDefinitive
  | refusedAmbiguous
  | transient
  deriving DecidableEq, Repr

inductive RevocationTransition
  | revoked
  | restored
  deriving DecidableEq, Repr

def ambiguousRefusalsBeforeRevoked : ℕ := 3

structure RevocationView where
  revoked : Bool := false
  deriving DecidableEq, Repr

namespace RevocationView

/-- `swap(true)`; the flag is `true` if it was clear before. -/
def set (_v : RevocationView) : RevocationView := ⟨true⟩

def clear (_v : RevocationView) : RevocationView := ⟨false⟩

end RevocationView

structure RevocationTracker where
  /-- a `u32` -/
  ambiguousRefusals : ℕ := 0
  deriving DecidableEq, Repr

/-- `u32::saturating_add(1)`. -/
def saturatingSucc (n : ℕ) : ℕ := min (n+1) (2^32-1)

/-- `RevocationTracker::apply`: the tracker, the shared view and the transition, if the flag moved. -/
def RevocationTracker.apply (T : RevocationTracker) (view : RevocationView) :
    RegistrationOutcome → RevocationTracker × RevocationView × Option RevocationTransition
  | .succeeded => (⟨0⟩, view.clear, if view.revoked then some .restored else none)
  | .refusedDefinitive => (⟨0⟩, view.set, if view.revoked then none else some .revoked)
  -- the count is not taken back at the threshold: every further one is at it too
  | .refusedAmbiguous =>
    let count := saturatingSucc T.ambiguousRefusals
    if ambiguousRefusalsBeforeRevoked ≤ count then
      (⟨count⟩, view.set, if view.revoked then none else some .revoked)
    else (⟨count⟩, view, none)
  -- an outage says nothing about the token
  | .transient => (T, view, none)

/-- A step moves the flag exactly when it returns a transition, and the transition names the way. -/
theorem RevocationTracker.apply_transition (T : RevocationTracker) (view : RevocationView)
    (o : RegistrationOutcome) :
    (T.apply view o).2.2 =
      if view.revoked = (T.apply view o).2.1.revoked then none
      else some (if (T.apply view o).2.1.revoked then .revoked else .restored) := by
  obtain ⟨b⟩ := view
  cases o with
  | succeeded => cases b <;> rfl
  | refusedDefinitive => cases b <;> rfl
  | refusedAmbiguous =>
    simp only [RevocationTracker.apply]
    split <;> cases b <;> rfl
  | transient => simp [RevocationTracker.apply]

/-! Any number of trackers over one view. A tracker's count is its own; the flag is one atomic swap,
at which the whole `apply` takes place. -/

section Shared
variable {ι : Type*} [DecidableEq ι]

/-- The shared view, each loop's tracker and the transitions returned so far, in order. -/
structure Loops (ι : Type*) where
  view : RevocationView := {}
  tracker : ι → RevocationTracker := fun _ => {}
  returned : List RevocationTransition := []

def Loops.apply (L : Loops ι) (e : ι × RegistrationOutcome) : Loops ι :=
  let r := (L.tracker e.1).apply L.view e.2
  { view := r.2.1, tracker := Function.update L.tracker e.1 r.1, returned := L.returned ++ r.2.2.toList }

/-- The loops after a sequence of outcomes, each applied by some tracker. -/
def Loops.after (es : List (ι × RegistrationOutcome)) : Loops ι := es.foldl Loops.apply {}

theorem Loops.after_append (es : List (ι × RegistrationOutcome)) (e : ι × RegistrationOutcome) :
    Loops.after (es ++ [e]) = (Loops.after es).apply e := by
  simp only [Loops.after, List.foldl_append, List.foldl_cons, List.foldl_nil]

/-- The outcomes applied since the last `Succeeded` of any tracker. -/
def sinceSucceeded (es : List (ι × RegistrationOutcome)) : List (ι × RegistrationOutcome) :=
  (es.reverse.takeWhile (fun e => e.2 ≠ .succeeded)).reverse

/-- The ambiguous refusals of one tracker since its own last success or definitive refusal. -/
def streak (i : ι) : List (ι × RegistrationOutcome) → ℕ :=
  List.foldl (fun k e => if e.1 ≠ i then k else
    match e.2 with
    | .succeeded => 0
    | .refusedDefinitive => 0
    | .refusedAmbiguous => k+1
    | .transient => k) 0

theorem streak_append (i : ι) (es : List (ι × RegistrationOutcome)) (j : ι) (o : RegistrationOutcome) :
    streak i (es ++ [(j, o)]) = if j ≠ i then streak i es else
      match o with
      | .succeeded => 0
      | .refusedDefinitive => 0
      | .refusedAmbiguous => streak i es + 1
      | .transient => streak i es := by
  simp only [streak, List.foldl_append, List.foldl_cons, List.foldl_nil]

/-- The count is the streak, up to where it saturates. -/
theorem Loops.count_eq (es : List (ι × RegistrationOutcome)) (i : ι) :
    ((Loops.after es).tracker i).ambiguousRefusals = min (streak i es) (2^32-1) := by
  induction es using List.reverseRecOn with
  | nil => rfl
  | append_singleton es e ih =>
    obtain ⟨j, o⟩ := e
    rw [Loops.after_append, streak_append]
    by_cases hj : j = i
    · subst hj
      simp only [Loops.apply, Function.update_self, ne_eq, not_true_eq_false, if_false]
      cases o with
      | succeeded => rfl
      | refusedDefinitive => rfl
      | refusedAmbiguous =>
        have hcount (r : RevocationTracker × RevocationView × Option RevocationTransition)
            (hr : r = ((Loops.after es).tracker j).apply (Loops.after es).view .refusedAmbiguous) :
            r.1.ambiguousRefusals =
              saturatingSucc ((Loops.after es).tracker j).ambiguousRefusals := by
          rw [hr]
          simp only [RevocationTracker.apply]
          split <;> rfl
        rw [hcount _ rfl, ih]
        simp only [saturatingSucc]
        omega
      | transient => exact ih
    · have hi : i ≠ j := fun h => hj h.symm
      simp only [Loops.apply, Function.update_of_ne hi, ne_eq, hj, not_false_eq_true, if_true, ih]

/-- A refusal that counts: a definitive one, or an ambiguous one that is at least the third of its
tracker since that tracker's own last success or definitive refusal. -/
def Refusal (pre : List (ι × RegistrationOutcome)) (i : ι) (o : RegistrationOutcome) : Prop :=
  o = .refusedDefinitive ∨
    o = .refusedAmbiguous ∧ ambiguousRefusalsBeforeRevoked ≤ streak i pre + 1

/-- Since the last `Succeeded` of any tracker, some tracker applied a refusal that counts. -/
def RefusedSince (es : List (ι × RegistrationOutcome)) : Prop :=
  ∃ pre i o post, es = pre ++ (i, o) :: post ∧ (∀ e ∈ post, e.2 ≠ .succeeded) ∧ Refusal pre i o

theorem refusedSince_append (es : List (ι × RegistrationOutcome)) (i : ι) (o : RegistrationOutcome) :
    RefusedSince (es ++ [(i, o)]) ↔ Refusal es i o ∨ o ≠ .succeeded ∧ RefusedSince es := by
  constructor
  · rintro ⟨pre, j, o', post, he, hpost, hr⟩
    rcases List.eq_nil_or_concat post with rfl | ⟨post', x, rfl⟩
    · obtain ⟨h1, h2⟩ := List.append_inj' he rfl
      cases h2
      exact .inl (h1 ▸ hr)
    · rw [List.concat_eq_append, ← List.cons_append, ← List.append_assoc] at he
      obtain ⟨h1, h2⟩ := List.append_inj' he rfl
      cases h2
      refine .inr ⟨hpost (i, o) (by simp), pre, j, o', post', h1, ?_, hr⟩
      intro e he
      exact hpost e (by simp [he])
  · rintro (hr | ⟨ho, pre, j, o', post, he, hpost, hr⟩)
    · exact ⟨es, i, o, [], rfl, by simp, hr⟩
    · refine ⟨pre, j, o', post ++ [(i, o)], by simp [he], ?_, hr⟩
      intro e he
      rcases List.mem_append.mp he with he | he
      · exact hpost e he
      · rw [List.mem_singleton] at he
        exact he ▸ ho

theorem Loops.revoked_iff (es : List (ι × RegistrationOutcome)) :
    (Loops.after es).view.revoked = true ↔ RefusedSince es := by
  induction es using List.reverseRecOn with
  | nil => simp [Loops.after, RefusedSince]
  | append_singleton es e ih =>
    obtain ⟨i, o⟩ := e
    rw [Loops.after_append, refusedSince_append]
    cases o with
    | succeeded => simp [Loops.apply, RevocationTracker.apply, RevocationView.clear, Refusal]
    | refusedDefinitive => simp [Loops.apply, RevocationTracker.apply, RevocationView.set, Refusal]
    | refusedAmbiguous =>
      have hcount := Loops.count_eq es i
      have hthird : ambiguousRefusalsBeforeRevoked ≤
          saturatingSucc ((Loops.after es).tracker i).ambiguousRefusals ↔
            ambiguousRefusalsBeforeRevoked ≤ streak i es + 1 := by
        rw [hcount]
        simp only [ambiguousRefusalsBeforeRevoked, saturatingSucc]
        omega
      by_cases h3 : ambiguousRefusalsBeforeRevoked ≤ streak i es + 1
      · simp [Loops.apply, RevocationTracker.apply, RevocationView.set, Refusal, h3, hthird]
      · simp [Loops.apply, RevocationTracker.apply, Refusal, h3, hthird, ih]
    | transient => simp [Loops.apply, RevocationTracker.apply, Refusal, ih]

/-- Revoked, Restored, Revoked, … with the flag as the last of them leaves it. -/
inductive Alternating : Bool → List RevocationTransition → Prop
  | nil : Alternating false []
  | revoked {ts : List RevocationTransition} (h : Alternating false ts) :
      Alternating true (ts ++ [.revoked])
  | restored {ts : List RevocationTransition} (h : Alternating true ts) :
      Alternating false (ts ++ [.restored])

/-- What a step adds to the transitions: one if the flag changes, and none otherwise. -/
theorem Loops.returned_apply (L : Loops ι) (e : ι × RegistrationOutcome) :
    (L.apply e).returned = L.returned ++
      if L.view.revoked = (L.apply e).view.revoked then []
      else [if (L.apply e).view.revoked then .revoked else .restored] := by
  have h := (L.tracker e.1).apply_transition L.view e.2
  simp only [Loops.apply, h]
  split <;> rfl

theorem Loops.returned_alternating (es : List (ι × RegistrationOutcome)) :
    Alternating (Loops.after es).view.revoked (Loops.after es).returned := by
  induction es using List.reverseRecOn with
  | nil => exact .nil
  | append_singleton es e ih =>
    rw [Loops.after_append, Loops.returned_apply]
    generalize (Loops.after es).apply e = L
    cases hb : (Loops.after es).view.revoked <;> cases hn : L.view.revoked <;> rw [hb] at ih
    · simpa using ih
    · simpa using ih.revoked
    · simpa using ih.restored
    · simpa using ih

/-- The flag says whether a refusal that counts was applied since the last success of any loop; a
transient changes nothing; the transitions alternate, one for each change. -/
theorem revocation_follows (es : List (ι × RegistrationOutcome)) :
    ((Loops.after es).view.revoked = true ↔ RefusedSince es) ∧
      (∀ i, Loops.after (es ++ [(i, .transient)]) = Loops.after es) ∧
      Alternating (Loops.after es).view.revoked (Loops.after es).returned ∧
      ∀ e, (Loops.after (es ++ [e])).returned = (Loops.after es).returned ++
        if (Loops.after es).view.revoked = (Loops.after (es ++ [e])).view.revoked then []
        else [if (Loops.after (es ++ [e])).view.revoked then .revoked else .restored] := by
  refine ⟨Loops.revoked_iff es, ?_, Loops.returned_alternating es, ?_⟩
  · intro i
    rw [Loops.after_append]
    simp [Loops.apply, RevocationTracker.apply]
  · intro e
    rw [Loops.after_append]
    exact Loops.returned_apply _ e

/-- One loop sees two ambiguous refusals, another registers, the first sees one more: its count is
its own, and the third sets the flag although only one came after the success. -/
theorem success_elsewhere_keeps_count :
    ¬ ∀ es : List (Bool × RegistrationOutcome), ((Loops.after es).view.revoked = true ↔
      ∃ i, (i, .refusedDefinitive) ∈ sinceSucceeded es ∨
        ambiguousRefusalsBeforeRevoked ≤ (sinceSucceeded es).count (i, .refusedAmbiguous)) := by
  intro h
  have hrun := h [(true, .refusedAmbiguous), (true, .refusedAmbiguous), (false, .succeeded),
    (true, .refusedAmbiguous)]
  revert hrun
  decide

end Shared

end CtAgent.Serve
