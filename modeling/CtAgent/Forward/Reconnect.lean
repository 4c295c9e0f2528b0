import CtAgent.Admission.Errors
import CtAgent.Channel.PeerGrant
import CtAgent.Lib.Run

/-! The session loop of a forward initiator. One round is one turn of the loop: the check at its top,
one session, the decision behind it and the backoff. Everything the loop reads of its surroundings
comes in with the round. -/
namespace CtAgent.Forward
open CtAgent.Lib CtAgent.Admission CtAgent.Channel

def forwardReconnectMin : Duration := secs 1

def forwardReconnectMax : Duration := secs 30

def nextForwardReconnectDelay (prev : Option Duration) (lasted : Duration) : Duration :=
  match prev with
  -- a session that held long enough starts the steps anew
  | some p => if lasted < forwardReconnectMax then min (p * 2) forwardReconnectMax
    else forwardReconnectMin
  | none => forwardReconnectMin

def expiredReason (ownExpiresAt : ℕ) : String :=
  s!"this member's channel grant expired (expires_at {ownExpiresAt})"

def forwardGrantEnd (recorded : Option GrantEnd) (ownExpiresAt now : ℕ) : Option GrantEnd :=
  match recorded with
  | some ⟨.own, reason⟩ => some ⟨.own, reason⟩
  | other => if ownExpiresAt ≤ now then some ⟨.own, expiredReason ownExpiresAt⟩ else other

inductive OnOwnGrantEnd where
  | exit | refuse
  deriving DecidableEq, Repr

/-- The readings of one round. `top` and `now` are `now_unix()` at the top of the loop and behind the
session, `refusalNow` the reading the refusal classifier takes. The expiry timers are armed from the
wall clock at `armed` and `waitArmed`, and the two selects resolve `elapsed` and `waitElapsed` later
on the monotonic clock. `outcome`: the session's result, none while it still runs; `drained`: how
long the loop then still waits for it; `wait`: the jittered backoff. -/
structure ForwardRound (E : Type*) where
  top : ℕ
  armed : Duration
  elapsed : Duration
  outcome : Option (Except E Unit)
  drained : Duration
  recorded : Option GrantEnd
  now : ℕ
  refusalNow : ℕ
  wait : Duration
  waitArmed : Duration
  waitElapsed : Duration

/-- The loop's variables, the number of sessions admitted so far, and the reason of the own grant end
once there is one. -/
structure ForwardLoop where
  delay : Option Duration
  lasted : Duration
  sessions : ℕ
  ended : Option String
  deriving DecidableEq, Repr

def ForwardLoop.init : ForwardLoop := ⟨none, 0, 0, none⟩

/-- What the loop comes to: `refusing` is the end state that keeps the listener and never returns. -/
inductive ForwardResult where
  | running
  | ownGrantEnded (reason : String)
  | refusing (reason : String)
  deriving DecidableEq, Repr

/-- `end_forward_for_own_grant`. -/
def ForwardLoop.result (s : ForwardLoop) (onOwnEnd : OnOwnGrantEnd) : ForwardResult :=
  match s.ended, onOwnEnd with
  | none, _ => .running
  | some reason, .exit => .ownGrantEnded reason
  | some reason, .refuse => .refusing reason

/-- `grant_expiry_timer`: armed at a wall-clock reading, due once the rest has passed. -/
def timerDue (ownExpiresAt : ℕ) (armed elapsed : Duration) : Bool :=
  secs ownExpiresAt - armed ≤ elapsed

section
variable {E : Type*} (display : E → String) (isOwnGrantRefusal : E → ℕ → Bool) (ownExpiresAt : ℕ)

def ownRefusalEnd (outcome : Except E Unit) (now : ℕ) : Option GrantEnd :=
  match outcome with
  | .error e => if isOwnGrantRefusal e now then some ⟨.own, display e⟩ else none
  | .ok () => none

/-- One round of `run_forward_initiate_reconnect_loop`; `none` where the loop is over or the readings
of the round do not resolve a select. -/
def forwardRound (s : ForwardLoop) (r : ForwardRound E) : Option ForwardLoop :=
  let expired := some (expiredReason ownExpiresAt)
  if s.ended.isSome then none
  else if ownExpiresAt ≤ r.top then some { s with ended := expired }
  else
    let s := { s with sessions := s.sessions + 1 }
    match r.outcome with
    | none =>
      if timerDue ownExpiresAt r.armed r.elapsed then
        some { s with lasted := r.elapsed + r.drained, ended := expired }
      else none
    | some outcome =>
      let s := { s with lasted := r.elapsed }
      let grantEnd := (forwardGrantEnd r.recorded ownExpiresAt r.now).or
        (ownRefusalEnd display isOwnGrantRefusal outcome r.refusalNow)
      match grantEnd with
      | some ⟨.own, reason⟩ => some { s with ended := some reason }
      | _ =>
        let step := nextForwardReconnectDelay s.delay s.lasted
        let s := { s with delay := some step }
        -- biased: an expiry during the backoff wins over the end of the wait
        if timerDue ownExpiresAt r.waitArmed r.waitElapsed then some { s with ended := expired }
        else if step / 2 ≤ r.wait ∧ r.wait ≤ step ∧ r.wait ≤ r.waitElapsed then some s
        else none

/-- The points at which the loop decides whether to go on: what a clock shows, or a session's end. -/
inductive Decision (E : Type*) where
  | clock (t : Duration)
  | session (recorded : Option GrantEnd) (outcome : Except E Unit) (now refusalNow : ℕ)

/-- A timer shows the reading it was armed from plus the time since. -/
def ForwardRound.decisions (r : ForwardRound E) : List (Decision E) :=
  .clock (secs r.top) ::
    match r.outcome with
    | none => [.clock (r.armed + r.elapsed)]
    | some outcome =>
      [.session r.recorded outcome r.now r.refusalNow, .clock (r.waitArmed + r.waitElapsed)]

/-- The own grant is over: by the clock, by the session's record, or by an own-grant refusal where no
peer end was recorded. -/
def Decision.OwnEnd : Decision E → Prop
  | .clock t => secs ownExpiresAt ≤ t
  | .session recorded outcome now refusalNow =>
    ownExpiresAt ≤ now ∨ (∃ reason, recorded = some ⟨.own, reason⟩) ∨
      ((∀ reason, recorded ≠ some ⟨.peer, reason⟩) ∧
        ∃ e, outcome = .error e ∧ isOwnGrantRefusal e refusalNow = true)

end

theorem timerDue_iff (ownExpiresAt : ℕ) (armed elapsed : Duration) :
    timerDue ownExpiresAt armed elapsed = true ↔ secs ownExpiresAt ≤ armed + elapsed := by
  simp only [timerDue, decide_eq_true_eq]
  exact tsub_le_iff_left

theorem secs_le_secs {m n : ℕ} : secs m ≤ secs n ↔ m ≤ n := by
  exact Nat.mul_le_mul_right_iff (by norm_num)

section
variable {E : Type*} {display : E → String} {isOwnGrantRefusal : E → ℕ → Bool} {ownExpiresAt : ℕ}

variable (display isOwnGrantRefusal ownExpiresAt) in
/-- The decision behind a session: an own end for the loop is one of the three own ends. -/
theorem session_end_iff (recorded : Option GrantEnd) (outcome : Except E Unit) (now refusalNow : ℕ) :
    (∃ reason, (forwardGrantEnd recorded ownExpiresAt now).or
        (ownRefusalEnd display isOwnGrantRefusal outcome refusalNow) = some ⟨.own, reason⟩) ↔
      (Decision.session recorded outcome now refusalNow).OwnEnd isOwnGrantRefusal ownExpiresAt := by
  have hrefusal : (∃ reason, ownRefusalEnd display isOwnGrantRefusal outcome refusalNow =
      some ⟨.own, reason⟩) ↔ ∃ e, outcome = .error e ∧ isOwnGrantRefusal e refusalNow = true := by
    rcases outcome with e | ⟨⟩ <;> simp [ownRefusalEnd]
  unfold Decision.OwnEnd
  by_cases hnow : ownExpiresAt ≤ now
  · rcases recorded with _ | ⟨⟨⟩ | ⟨⟩, reason⟩ <;> simp [forwardGrantEnd, hnow]
  · rcases recorded with _ | ⟨⟨⟩ | ⟨⟩, reason⟩
    · simpa [forwardGrantEnd, hnow] using hrefusal
    · simp [forwardGrantEnd]
    · simp [forwardGrantEnd, hnow]

/-- What a round that can happen does: it ends the loop at one of its decision points, or goes on
with the next backoff step. -/
theorem forwardRound_cases {s t : ForwardLoop} {r : ForwardRound E}
    (h : forwardRound display isOwnGrantRefusal ownExpiresAt s r = some t) :
    s.ended = none ∧
    t.sessions = s.sessions + (if ownExpiresAt ≤ r.top then 0 else 1) ∧
    ((t.ended.isSome = true ∧ ∃ d ∈ r.decisions, d.OwnEnd isOwnGrantRefusal ownExpiresAt) ∨
      (t.ended = none ∧ (∀ d ∈ r.decisions, ¬ d.OwnEnd isOwnGrantRefusal ownExpiresAt) ∧
        t.delay = some (nextForwardReconnectDelay s.delay r.elapsed))) := by
  unfold forwardRound at h
  by_cases hs : s.ended.isSome
  · simp [hs] at h
  have hnone : s.ended = none := by simpa using hs
  refine ⟨hnone, ?_⟩
  simp only [hs, Bool.false_eq_true, if_false] at h
  have htop : Decision.OwnEnd isOwnGrantRefusal ownExpiresAt (.clock (secs r.top)) ↔
      ownExpiresAt ≤ r.top := secs_le_secs
  by_cases hclock : ownExpiresAt ≤ r.top
  · rw [if_pos hclock, Option.some.injEq] at h
    subst h
    refine ⟨by simp [hclock], .inl ⟨rfl, .clock (secs r.top), ?_, htop.mpr hclock⟩⟩
    simp [ForwardRound.decisions]
  rw [if_neg hclock] at h
  rw [if_neg hclock]
  have htop' := mt htop.mp hclock
  cases ho : r.outcome with
  | none =>
    simp only [ho] at h
    split at h
    · rename_i htimer
      rw [Option.some.injEq] at h
      subst h
      refine ⟨rfl, .inl ⟨rfl, .clock (r.armed + r.elapsed), ?_, (timerDue_iff ..).mp htimer⟩⟩
      simp [ForwardRound.decisions, ho]
    · cases h
  | some outcome =>
    simp only [ho] at h
    have hsession := session_end_iff display isOwnGrantRefusal ownExpiresAt
      r.recorded outcome r.now r.refusalNow
    split at h
    · rename_i reason hend
      rw [Option.some.injEq] at h
      subst h
      refine ⟨rfl, .inl ⟨rfl, .session r.recorded outcome r.now r.refusalNow, ?_,
        hsession.mp ⟨reason, hend⟩⟩⟩
      simp [ForwardRound.decisions, ho]
    · rename_i hend
      have hgo : ¬ Decision.OwnEnd isOwnGrantRefusal ownExpiresAt
          (.session r.recorded outcome r.now r.refusalNow) := by
        intro hown
        obtain ⟨reason, hr⟩ := hsession.mpr hown
        exact hend reason hr
      split at h
      · rename_i htimer
        rw [Option.some.injEq] at h
        subst h
        refine ⟨rfl, .inl ⟨rfl, .clock (r.waitArmed + r.waitElapsed), ?_,
          (timerDue_iff ..).mp htimer⟩⟩
        simp [ForwardRound.decisions, ho]
      · rename_i htimer
        split at h
        · rw [Option.some.injEq] at h
          subst h
          refine ⟨rfl, .inr ⟨hnone, ?_, rfl⟩⟩
          have hwait : ¬ Decision.OwnEnd isOwnGrantRefusal ownExpiresAt
              (.clock (r.waitArmed + r.waitElapsed) : Decision E) :=
            mt (timerDue_iff ..).mpr htimer
          simp [ForwardRound.decisions, ho, htop', hgo, hwait]
        · cases h

theorem forwardRound_delay {s t : ForwardLoop} {r : ForwardRound E}
    (h : forwardRound display isOwnGrantRefusal ownExpiresAt s r = some t) (hgo : t.ended = none) :
    t.delay = some (nextForwardReconnectDelay s.delay r.elapsed) := by
  obtain ⟨-, -, ⟨hend, -⟩ | ⟨-, -, hdelay⟩⟩ := forwardRound_cases h
  · simp [hgo] at hend
  · exact hdelay

theorem forwardRound_ended_iff {s t : ForwardLoop} {r : ForwardRound E}
    (h : forwardRound display isOwnGrantRefusal ownExpiresAt s r = some t) :
    t.ended.isSome = true ↔ ∃ d ∈ r.decisions, d.OwnEnd isOwnGrantRefusal ownExpiresAt := by
  obtain ⟨-, -, ⟨hend, hd⟩ | ⟨hend, hd, -⟩⟩ := forwardRound_cases h
  · exact iff_of_true hend hd
  · refine iff_of_false (by simp [hend]) ?_
    rintro ⟨d, hmem, hown⟩
    exact hd d hmem hown

/-- A loop that is over takes no further round. -/
theorem forwardRun_ended {s t : ForwardLoop} {rounds : List (ForwardRound E)}
    (hs : s.ended.isSome = true)
    (h : run (forwardRound display isOwnGrantRefusal ownExpiresAt) s rounds = some t) :
    rounds = [] := by
  cases rounds with
  | nil => rfl
  | cons r rounds =>
    obtain ⟨u, hu, -⟩ := (run_cons _ s t r rounds).mp h
    obtain ⟨hnone, -⟩ := forwardRound_cases hu
    simp [hnone] at hs

theorem forwardRun_ended_iff {s t : ForwardLoop} {rounds : List (ForwardRound E)}
    (hs : s.ended = none)
    (h : run (forwardRound display isOwnGrantRefusal ownExpiresAt) s rounds = some t) :
    t.ended.isSome = true ↔
      ∃ r ∈ rounds, ∃ d ∈ r.decisions, d.OwnEnd isOwnGrantRefusal ownExpiresAt := by
  induction rounds generalizing s with
  | nil =>
    cases h
    simp [hs]
  | cons r rounds ih =>
    obtain ⟨u, hu, hrun⟩ := (run_cons _ s t r rounds).mp h
    rw [List.exists_mem_cons_iff, ← forwardRound_ended_iff hu]
    cases hend : u.ended with
    | none => simpa using ih hend hrun
    | some reason =>
      obtain rfl := forwardRun_ended (by simp [hend]) hrun
      cases hrun
      simp [hend]

/-- After at least one round, a loop that goes on has a backoff step. -/
theorem forwardRun_delay {s : ForwardLoop} {rounds : List (ForwardRound E)} (hne : rounds ≠ [])
    (h : run (forwardRound display isOwnGrantRefusal ownExpiresAt) .init rounds = some s)
    (hgo : s.ended = none) : ∃ step, s.delay = some step := by
  obtain ⟨pre, r, rfl⟩ := (List.eq_nil_or_concat' rounds).resolve_left hne
  obtain ⟨u, v, -, hv, hnil⟩ := run_split h
  cases hnil
  exact ⟨_, forwardRound_delay hv hgo⟩

variable (display isOwnGrantRefusal ownExpiresAt) in
/-- Only an own grant end ends a forward, at the first decision point that shows one; the backoff
doubles from its minimum to its maximum and starts over behind a long session. -/
theorem only_own_grant_end_stops (rounds : List (ForwardRound E)) (s : ForwardLoop)
    (hrun : run (forwardRound display isOwnGrantRefusal ownExpiresAt) .init rounds = some s) :
    let ownEnd := ∃ r ∈ rounds, ∃ d ∈ r.decisions, d.OwnEnd isOwnGrantRefusal ownExpiresAt
    ((∃ reason, s.result .exit = .ownGrantEnded reason) ↔ ownEnd) ∧
    ((∃ reason, s.result .refuse = .refusing reason) ↔ ownEnd) ∧
    ∀ pre r post, rounds = pre ++ r :: post →
      ∃ before after,
        run (forwardRound display isOwnGrantRefusal ownExpiresAt) .init pre = some before ∧
        forwardRound display isOwnGrantRefusal ownExpiresAt before r = some after ∧
        ((∃ d ∈ r.decisions, d.OwnEnd isOwnGrantRefusal ownExpiresAt) → post = []) ∧
        after.sessions = before.sessions + (if ownExpiresAt ≤ r.top then 0 else 1) ∧
        (after.ended = none →
          (pre = [] ∨ forwardReconnectMax ≤ r.elapsed → after.delay = some forwardReconnectMin) ∧
          (pre ≠ [] → r.elapsed < forwardReconnectMax →
            ∃ prev, before.delay = some prev ∧
              after.delay = some (min (2 * prev) forwardReconnectMax))) := by
  intro ownEnd
  have hended : s.ended.isSome = true ↔ ownEnd := forwardRun_ended_iff rfl hrun
  refine ⟨?_, ?_, ?_⟩
  · rw [← hended]
    cases hs : s.ended <;> simp [ForwardLoop.result, hs]
  · rw [← hended]
    cases hs : s.ended <;> simp [ForwardLoop.result, hs]
  rintro pre r post rfl
  obtain ⟨before, after, hbefore, hafter, hpost⟩ := run_split hrun
  obtain ⟨hgo, hsessions, -⟩ := forwardRound_cases hafter
  refine ⟨before, after, hbefore, hafter, ?_, hsessions, ?_⟩
  · intro hown
    exact forwardRun_ended ((forwardRound_ended_iff hafter).mpr hown) hpost
  · intro hnone
    rw [forwardRound_delay hafter hnone]
    constructor
    · rintro (rfl | hlong)
      · cases hbefore
        rfl
      · have : ¬ r.elapsed < forwardReconnectMax := Nat.not_lt.mpr hlong
        cases before.delay <;> simp [nextForwardReconnectDelay, this]
    · intro hne hshort
      obtain ⟨prev, hprev⟩ := forwardRun_delay hne hbefore hgo
      refine ⟨prev, hprev, ?_⟩
      simp [nextForwardReconnectDelay, hprev, hshort, Nat.mul_comm]

end

/-- The classifier `run_forward_initiate_sessions` hands to the loop. -/
def ownGrantRefused (ownExpiresAt : ℕ) (e : BoxError) (now : ℕ) : Bool :=
  (ownGrantRefusal e (some ownExpiresAt) now).isSome

/-- A session of five seconds that the end of the peer's grant cut. -/
def peerEndRound : ForwardRound BoxError where
  top := 10
  armed := secs 10
  elapsed := secs 5
  outcome := some (.ok ())
  drained := 0
  recorded := some ⟨.peer, "the channel grant was revoked: operator"⟩
  now := 15
  refusalNow := 15
  wait := 600000000
  waitArmed := secs 15
  waitElapsed := 600000000

/-- An admission answered that the own grant is revoked. -/
def revokedRound : ForwardRound BoxError :=
  { peerEndRound with
    outcome := some (.error (.admissionRefused "edge broker refused the channel join [grant-revoked]"
      (some "grant-revoked")))
    recorded := none }

/-- The end of the peer's grant is followed by a second session, the revoked own grant by the end. -/
theorem only_own_grant_end_stops_sample :
    ∃ reason, ForwardLoop.result
      ⟨some (secs 1), secs 5, 2, some "edge broker refused the channel join [grant-revoked]"⟩ .exit =
        .ownGrantEnded reason := by
  have h := only_own_grant_end_stops BoxError.toString (ownGrantRefused 1000) 1000
    [peerEndRound, revokedRound]
    ⟨some (secs 1), secs 5, 2, some "edge broker refused the channel join [grant-revoked]"⟩ (by decide)
  refine h.1.mpr ⟨revokedRound, by simp, _, List.mem_cons_of_mem _ List.mem_cons_self, ?_⟩
  exact .inr (.inr ⟨by simp [revokedRound], _, rfl, by decide⟩)

/-- With `refuse`, an expired own grant leaves the loop in its refusing end state. -/
theorem refusing_forward_never_stops :
    ¬ ∀ (onOwnEnd : OnOwnGrantEnd) (rounds : List (ForwardRound BoxError)) (s : ForwardLoop),
      run (forwardRound BoxError.toString (ownGrantRefused 10) 10) .init rounds = some s →
      ((∃ reason, s.result onOwnEnd = .ownGrantEnded reason) ↔
        ∃ r ∈ rounds, ∃ d ∈ r.decisions, d.OwnEnd (ownGrantRefused 10) 10) := by
  intro h
  have hend := (h .refuse [peerEndRound] ⟨none, 0, 0, some (expiredReason 10)⟩ (by decide)).mpr
    ⟨peerEndRound, by simp, .clock (secs 10), List.mem_cons_self, le_rfl⟩
  obtain ⟨reason, hr⟩ := hend
  simp [ForwardLoop.result] at hr

end CtAgent.Forward
