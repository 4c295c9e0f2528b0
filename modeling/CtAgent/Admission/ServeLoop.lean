import CtAgent.Admission.Errors
import CtAgent.Lib.Run

/-! The admission turns of the persistent serve loop and their three streak counters. Sessions and
the flap counter they share run beside it and change nothing here. -/
namespace CtAgent.Admission
open CtAgent.Lib

structure Streaks where
  refusals : ℕ
  eofs : ℕ
  transients : ℕ
  deriving DecidableEq, Repr

/-- How one admission attempt ended; for a failure also how long it took and what the clock read. -/
inductive AdmitResult where
  | admitted
  | panicked
  | failed (e : BoxError) (elapsed : Duration) (now : ℕ)

/-- What the loop does before its next attempt. `backoff` is a delay before `equal_jitter`, `repark`
the base of `ex_repark_delay`. -/
inductive AfterAdmit where
  | serve
  | sleep (d : Duration)
  | repark (base : Duration)
  | backoff (d : Duration)
  | stop (reason : String)
  deriving DecidableEq, Repr

/-- The failure classes, in the order the loop tells them apart. -/
inductive AdmitClass where
  | success | panic | ownEnd | parkExpiry | handshakeEof | refusal | transient
  deriving DecidableEq, Repr

section
variable (errorNamesParkExpiry : BoxError → Bool) (retryBackoff : Duration) (ownExpiresAt : Option ℕ)

def afterFailure (s : Streaks) (e : BoxError) (elapsed : Duration) (now : ℕ) :
    Streaks × AfterAdmit :=
  match ownGrantRefusal e ownExpiresAt now with
  | some reason => (s, .stop reason)
  | none =>
    -- no partner came: the normal end of a park, which ends every streak
    if isParkExpired errorNamesParkExpiry e then (⟨0, 0, 0⟩, .repark retryBackoff)
    else if isTransportHandshakeEof e then
      let eofs := saturatingSucc s.eofs
      (⟨0, eofs, 0⟩, .backoff (handshakeEofBackoff retryBackoff eofs))
    else
      let refused := isDefinitiveAdmissionRefusal e
      let refusals := if refused then saturatingSucc s.refusals else 0
      -- a long attempt paced the loop by itself and starts a new streak
      let transients := if transientAdmissionBackoffCap ≤ elapsed then 0 else s.transients
      let transients := if refused then 0 else saturatingSucc transients
      (⟨refusals, 0, transients⟩, .backoff
        (if refused then admissionRetryBackoff retryBackoff refused refusals
        else transientAdmissionBackoff retryBackoff transients))

/-- One turn of `serve_loop_admitting`. -/
def serveTurn (s : Streaks) : AdmitResult → Streaks × AfterAdmit
  | .admitted => (⟨0, 0, 0⟩, .serve)
  | .panicked => (⟨0, 0, 0⟩, .sleep retryBackoff)
  | .failed e elapsed now =>
    afterFailure errorNamesParkExpiry retryBackoff ownExpiresAt s e elapsed now

/-- The streaks after a turn, unless the loop stopped there. -/
def serveStep (s : Streaks) (r : AdmitResult) : Option Streaks :=
  match serveTurn errorNamesParkExpiry retryBackoff ownExpiresAt s r with
  | (_, .stop _) => none
  | (s', _) => some s'

def classOf : AdmitResult → AdmitClass
  | .admitted => .success
  | .panicked => .panic
  | .failed e _ now =>
    if (ownGrantRefusal e ownExpiresAt now).isSome then .ownEnd
    else if isParkExpired errorNamesParkExpiry e then .parkExpiry
    else if isTransportHandshakeEof e then .handshakeEof
    else if isDefinitiveAdmissionRefusal e then .refusal
    else .transient

end

/-- How often `counted` came since the last class that is neither `counted` nor `other`. -/
def streakLength (counted other : AdmitClass) : List AdmitClass → ℕ :=
  List.foldl (fun n c => if c = counted then n + 1 else if c = other then n else 0) 0

/-- No `other` since the last class that is neither `counted` nor `other`. -/
def unmixed (counted other : AdmitClass) : List AdmitClass → Bool :=
  List.foldl (fun b c => if c = counted then b else if c = other then false else true) true

theorem streakLength_concat (counted other : AdmitClass) (cs : List AdmitClass) (c : AdmitClass) :
    streakLength counted other (cs ++ [c]) =
      if c = counted then streakLength counted other cs + 1
      else if c = other then streakLength counted other cs else 0 := by
  simp [streakLength]

theorem unmixed_concat (counted other : AdmitClass) (cs : List AdmitClass) (c : AdmitClass) :
    unmixed counted other (cs ++ [c]) =
      if c = counted then unmixed counted other cs else if c = other then false else true := by
  simp [unmixed]

/-- A counter follows the streak of its class: it never runs ahead of it, and keeps up with it where
the other class did not come in between. -/
structure Follows (counter : ℕ) (counted other : AdmitClass) (cs : List AdmitClass) : Prop where
  le : counter ≤ streakLength counted other cs
  eq : unmixed counted other cs = true → counter = min (streakLength counted other cs) u32Max

namespace Follows

variable {n : ℕ} {counted other c : AdmitClass} {cs : List AdmitClass}

theorem counts (h : Follows n counted other cs) :
    Follows (saturatingSucc n) counted other (cs ++ [counted]) := by
  constructor
  · rw [streakLength_concat, if_pos rfl]
    have := h.le
    unfold saturatingSucc
    omega
  · rw [streakLength_concat, unmixed_concat, if_pos rfl, if_pos rfl]
    intro hu
    have := h.eq hu
    unfold saturatingSucc
    omega

/-- Set back to zero by any other class. -/
theorem resets (hc : c ≠ counted) : Follows 0 counted other (cs ++ [c]) := by
  constructor
  · exact Nat.zero_le _
  · rw [streakLength_concat, unmixed_concat, if_neg hc, if_neg hc]
    split <;> simp

end Follows

theorem cappedBackoff_u32 (cap d : Duration) (n : ℕ) :
    cappedBackoff cap d (min n u32Max) = cappedBackoff cap d n := by
  have h : min (min n u32Max) 16 = min n 16 := by
    unfold u32Max
    omega
  unfold cappedBackoff
  rw [h]

/-- From sixteen failures on, the delay is at its ceiling if doubling can reach it. -/
theorem cappedBackoff_cap {cap d : Duration} {n : ℕ} (hn : 16 ≤ n) (hd : cap ≤ d * 2^16)
    (hcap : cap ≤ durationMax) : cappedBackoff cap d n = cap := by
  unfold cappedBackoff saturatingMul
  rw [Nat.min_eq_right hn]
  exact Nat.min_eq_right (le_min hd hcap)

section
variable (errorNamesParkExpiry : BoxError → Bool) (retryBackoff : Duration)
  (ownExpiresAt : Option ℕ)

/-- What one turn does to the counters and which delay it takes, class by class. -/
theorem serveTurn_cases (s : Streaks) (r : AdmitResult) :
    let turn := serveTurn errorNamesParkExpiry retryBackoff ownExpiresAt s r
    match classOf errorNamesParkExpiry ownExpiresAt r with
    | .success => turn = (⟨0, 0, 0⟩, .serve)
    | .panic => turn = (⟨0, 0, 0⟩, .sleep retryBackoff)
    | .ownEnd => ∃ reason, turn = (s, .stop reason)
    | .parkExpiry => turn = (⟨0, 0, 0⟩, .repark retryBackoff)
    | .handshakeEof => turn = (⟨0, saturatingSucc s.eofs, 0⟩,
        .backoff (handshakeEofBackoff retryBackoff (saturatingSucc s.eofs)))
    | .refusal => turn = (⟨saturatingSucc s.refusals, 0, 0⟩,
        .backoff (admissionRetryBackoff retryBackoff true (saturatingSucc s.refusals)))
    | .transient => ∃ n, turn = (⟨0, 0, n⟩, .backoff (transientAdmissionBackoff retryBackoff n)) := by
  intro turn
  cases r with
  | admitted => rfl
  | panicked => rfl
  | failed e elapsed now =>
    have hturn : turn = afterFailure errorNamesParkExpiry retryBackoff ownExpiresAt s e elapsed now :=
      rfl
    rw [hturn]
    unfold afterFailure classOf
    cases hown : ownGrantRefusal e ownExpiresAt now with
    | some reason => simp [hown]
    | none =>
      by_cases hp : isParkExpired errorNamesParkExpiry e
      · simp [hown, hp]
      by_cases he : isTransportHandshakeEof e
      · simp [hown, hp, he]
      by_cases hr : isDefinitiveAdmissionRefusal e <;> simp [hown, hp, he, hr]

/-- The two streaks of a history of turns. -/
structure StreaksOf (cs : List AdmitClass) (s : Streaks) : Prop where
  refusals : Follows s.refusals .refusal .handshakeEof cs
  eofs : Follows s.eofs .handshakeEof .refusal cs

variable {errorNamesParkExpiry retryBackoff ownExpiresAt}

theorem StreaksOf.step {cs : List AdmitClass} {s t : Streaks} {r : AdmitResult}
    (h : StreaksOf cs s)
    (hstep : serveStep errorNamesParkExpiry retryBackoff ownExpiresAt s r = some t) :
    StreaksOf (cs ++ [classOf errorNamesParkExpiry ownExpiresAt r]) t := by
  have hturn := serveTurn_cases errorNamesParkExpiry retryBackoff ownExpiresAt s r
  unfold serveStep at hstep
  cases hc : classOf errorNamesParkExpiry ownExpiresAt r <;> simp only [hc] at hturn
  case ownEnd =>
    obtain ⟨reason, hturn⟩ := hturn
    simp [hturn] at hstep
  case handshakeEof =>
    rw [hturn] at hstep
    cases hstep
    exact ⟨.resets (by decide), h.eofs.counts⟩
  case refusal =>
    rw [hturn] at hstep
    cases hstep
    exact ⟨h.refusals.counts, .resets (by decide)⟩
  case transient =>
    obtain ⟨n, hturn⟩ := hturn
    rw [hturn] at hstep
    cases hstep
    exact ⟨.resets (by decide), .resets (by decide)⟩
  all_goals
    rw [hturn] at hstep
    cases hstep
    exact ⟨.resets (by decide), .resets (by decide)⟩

theorem StreaksOf.run {hist : List AdmitResult} {s t : Streaks} {cs : List AdmitClass}
    (h : StreaksOf cs s)
    (hrun : run (serveStep errorNamesParkExpiry retryBackoff ownExpiresAt) s hist = some t) :
    StreaksOf (cs ++ hist.map (classOf errorNamesParkExpiry ownExpiresAt)) t := by
  induction hist generalizing s cs with
  | nil =>
    cases hrun
    simpa using h
  | cons r hist ih =>
    obtain ⟨u, hu, hrun⟩ := (run_cons _ s t r hist).mp hrun
    simpa using ih (h.step hu) hrun

/-- The delay of a counter that follows its streak: never longer than the streak's own, and equal to
it where the other class did not come in between. -/
theorem Follows.backoff {n : ℕ} {counted other : AdmitClass} {cs : List AdmitClass}
    (h : Follows n counted other cs) (cap d : Duration) :
    cappedBackoff cap d n ≤ cappedBackoff cap d (streakLength counted other cs) ∧
      (unmixed counted other cs = true →
        cappedBackoff cap d n = cappedBackoff cap d (streakLength counted other cs)) := by
  refine ⟨cappedBackoff_mono h.le, ?_⟩
  intro hu
  rw [h.eq hu, cappedBackoff_u32]

variable (errorNamesParkExpiry retryBackoff ownExpiresAt) in
/-- The delay after a definitive refusal goes with the refusals since the last success, panic, park
expiry or transient failure, the delay after a handshake EOF with the handshake EOFs since then; both
grow up to their ceilings. -/
theorem admission_streaks (hist : List AdmitResult) (s : Streaks)
    (hrun : run (serveStep errorNamesParkExpiry retryBackoff ownExpiresAt) ⟨0, 0, 0⟩ hist = some s)
    (r : AdmitResult) :
    let cs := (hist ++ [r]).map (classOf errorNamesParkExpiry ownExpiresAt)
    let after := (serveTurn errorNamesParkExpiry retryBackoff ownExpiresAt s r).2
    let refusals := streakLength .refusal .handshakeEof cs
    let eofs := streakLength .handshakeEof .refusal cs
    (classOf errorNamesParkExpiry ownExpiresAt r = .refusal →
      ∃ d, after = .backoff d ∧ d ≤ admissionRetryBackoff retryBackoff true refusals ∧
        (unmixed .refusal .handshakeEof cs = true →
          d = admissionRetryBackoff retryBackoff true refusals)) ∧
    (classOf errorNamesParkExpiry ownExpiresAt r = .handshakeEof →
      ∃ d, after = .backoff d ∧ d ≤ handshakeEofBackoff retryBackoff eofs ∧
        (unmixed .handshakeEof .refusal cs = true → d = handshakeEofBackoff retryBackoff eofs)) ∧
    (refusedAdmissionBackoffCap ≤ retryBackoff * 2^16 → ∀ n ≥ 16,
      admissionRetryBackoff retryBackoff true n = refusedAdmissionBackoffCap) ∧
    (handshakeEofBackoffCap ≤ retryBackoff * 2^16 → ∀ n ≥ 16,
      handshakeEofBackoff retryBackoff n = handshakeEofBackoffCap) := by
  intro cs after refusals eofs
  have hs : StreaksOf (hist.map (classOf errorNamesParkExpiry ownExpiresAt)) s := by
    have h0 : StreaksOf [] ⟨0, 0, 0⟩ := ⟨⟨le_rfl, fun _ => rfl⟩, ⟨le_rfl, fun _ => rfl⟩⟩
    simpa using h0.run hrun
  have hcs : cs = hist.map (classOf errorNamesParkExpiry ownExpiresAt) ++
      [classOf errorNamesParkExpiry ownExpiresAt r] := by simp [cs]
  have hturn := serveTurn_cases errorNamesParkExpiry retryBackoff ownExpiresAt s r
  refine ⟨?_, ?_, ?_, ?_⟩
  · intro hc
    simp only [hc] at hturn
    have hf : Follows (saturatingSucc s.refusals) .refusal .handshakeEof cs := by
      rw [hcs, hc]
      exact hs.refusals.counts
    refine ⟨_, congrArg Prod.snd hturn, ?_⟩
    exact hf.backoff refusedAdmissionBackoffCap retryBackoff
  · intro hc
    simp only [hc] at hturn
    have hf : Follows (saturatingSucc s.eofs) .handshakeEof .refusal cs := by
      rw [hcs, hc]
      exact hs.eofs.counts
    refine ⟨_, congrArg Prod.snd hturn, ?_⟩
    exact hf.backoff handshakeEofBackoffCap retryBackoff
  · intro hd n hn
    exact cappedBackoff_cap hn hd (by decide)
  · intro hd n hn
    exact cappedBackoff_cap hn hd (by decide)

end

def refusedTurn : AdmitResult :=
  .failed (.admissionRefused "edge broker refused the channel join" none) 0 0

/-- Two refusals behind a transient failure, 200 ms as the base: 800 ms. -/
theorem admission_streaks_two_refusals :
    (serveTurn (fun _ => false) 200000000 none ⟨1, 0, 0⟩ refusedTurn).2 = .backoff 800000000 := by
  obtain ⟨h, -⟩ := admission_streaks (fun _ => false) 200000000 none
    [.failed (.text "connection reset") 0 0, refusedTurn] ⟨1, 0, 0⟩ (by decide) refusedTurn
  obtain ⟨d, hd, -, heq⟩ := h (by decide)
  rw [hd, heq (by decide)]
  decide

/-- The definitive refusals since the last success. -/
def refusalsSinceSuccess (cs : List AdmitClass) : ℕ :=
  (cs.reverse.takeWhile (· ≠ .success)).count .refusal

/-- A transient failure between two refusals sets the delay back: it is no function of the refusals
since the last success. -/
theorem refusal_delay_restarts :
    ¬ ∃ f : ℕ → Duration, ∀ (hist : List AdmitResult) (s : Streaks),
      run (serveStep (fun _ => false) 200000000 none) ⟨0, 0, 0⟩ hist = some s →
      ∀ r, classOf (fun _ => false) none r = .refusal →
        (serveTurn (fun _ => false) 200000000 none s r).2 = .backoff
          (f (refusalsSinceSuccess ((hist ++ [r]).map (classOf (fun _ => false) none)))) := by
  rintro ⟨f, h⟩
  have h1 := h [refusedTurn] ⟨1, 0, 0⟩ (by decide) refusedTurn (by decide)
  have h2 := h [refusedTurn, .failed (.text "connection reset") 0 0] ⟨0, 0, 1⟩ (by decide)
    refusedTurn (by decide)
  have hd1 : (serveTurn (fun _ => false) 200000000 none ⟨1, 0, 0⟩ refusedTurn).2 =
      .backoff 800000000 := by decide
  have hd2 : (serveTurn (fun _ => false) 200000000 none ⟨0, 0, 1⟩ refusedTurn).2 =
      .backoff 400000000 := by decide
  have hn1 : refusalsSinceSuccess
      (([refusedTurn] ++ [refusedTurn]).map (classOf (fun _ => false) none)) = 2 := by decide
  have hn2 : refusalsSinceSuccess
      (([refusedTurn, .failed (.text "connection reset") 0 0] ++ [refusedTurn]).map
        (classOf (fun _ => false) none)) = 2 := by decide
  rw [hd1, hn1] at h1
  rw [hd2, hn2] at h2
  have heq := (AfterAdmit.backoff.inj h1).trans (AfterAdmit.backoff.inj h2).symm
  exact absurd heq (by decide)

end CtAgent.Admission
