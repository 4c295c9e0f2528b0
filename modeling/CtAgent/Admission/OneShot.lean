import CtAgent.Admission.Ladder
import Mathlib.Data.Nat.Find

/-! The bounded admission retry of an initiator, on the plain direct-QUIC path and over a ladder of
the one direct rung. Attempts are numbered from zero; their answers and their timing come in as
sequences, and time counts from the start of the window. -/
namespace CtAgent.Admission
open CtAgent.Lib CtAgent.Channel

inductive InitiateWait where
  | oneShot | persistent
  deriving DecidableEq, Repr

def initiateRetryInterval : Duration := secs 3

/-- How long the edge takes to answer an attempt, how late a cut at the end of the window is noticed,
and how late the sleep behind the attempt ends. -/
structure AttemptTiming where
  took : Duration
  cutLag : Duration
  sleepLag : Duration
  deriving DecidableEq, Repr

/-- The attempts made, and what the window ended in. -/
structure AdmitRun where
  attempts : ℕ
  result : Except BoxError ChannelJoinOutcome

section
variable (wait : InitiateWait) (deadline : Duration)

/-- A one-shot attempt still parked when the window closes is dropped. -/
def cutAttempt (start : Duration) (t : AttemptTiming) : Bool :=
  wait == .oneShot && deadline < start + t.took

def attemptDone (start : Duration) (t : AttemptTiming) : Duration :=
  if cutAttempt wait deadline start t then deadline + t.cutLag else start + t.took

/-- No further attempt: the window is over, or a one-shot attempt could only start at its end. -/
def windowCloses (now : Duration) : Bool :=
  deadline ≤ now || (wait == .oneShot && deadline ≤ now + initiateRetryInterval)

def nextStart (now : Duration) (t : AttemptTiming) : Duration :=
  min deadline (now + initiateRetryInterval) + t.sleepLag

end

def previousAttemptText : String :=
  "the attempt was still parked when the one-shot window closed (previous attempt: "

def cutText (previous : Option String) : String :=
  match previous with
  | none => "the attempt was still parked when the one-shot window closed"
  | some p => previousAttemptText ++ (p ++ ")")

def lastOutcomeText : String :=
  "-- the peer may be between park windows (#21), offline, or parked at a different pairer (last outcome: "

/-- An admission, or a refusal that never clears, ends the window at once. -/
def settles : Except BoxError ChannelJoinOutcome → Bool
  | .ok (.admitted _ _ _ _) => true
  | .ok _ => false
  | .error e => isRevokedGrantRefusal e

section
-- the `Debug` text of ct-common's outcome type
variable (debugOutcome : ChannelJoinOutcome → String)

def describe : Except BoxError ChannelJoinOutcome → String
  | .ok outcome => debugOutcome outcome
  | .error e => e.toString

def windowReason : Except BoxError ChannelJoinOutcome → String
  | .ok outcome => lastOutcomeText ++ (debugOutcome outcome ++ ")")
  | .error e => "-- last error: " ++ e.toString

def noAcceptor (channel : Key) (window : Duration) (attempt : ℕ)
    (result : Except BoxError ChannelJoinOutcome) : BoxError :=
  .text ("no acceptor for channel " ++ (hex channel ++ (" parked at this edge within " ++
    (Nat.repr (window / 10^9) ++ ("s (attempt " ++ (Nat.repr attempt ++ (", ct-agent#95) " ++
      windowReason debugOutcome result)))))))

variable (window : Duration) (channel : Key) (wait : InitiateWait)
  (answers : ℕ → Except BoxError ChannelJoinOutcome) (timing : ℕ → AttemptTiming)

/-- The retry loop from attempt `k` on, which starts at `start`. -/
def admitFrom : ℕ → ℕ → Duration → Option String → Option AdmitRun
  | 0, _, _, _ => none
  | fuel + 1, k, start, previous =>
    let result := if cutAttempt wait window start (timing k) then .error (.text (cutText previous))
      else answers k
    -- the time of the attempt is part of the window
    let now := attemptDone wait window start (timing k)
    if settles result then some ⟨k + 1, result⟩
    else if windowCloses wait window now then
      some ⟨k + 1, .error (noAcceptor debugOutcome channel window (k + 1) result)⟩
    else admitFrom fuel (k + 1) (nextStart window now (timing k)) (some (describe debugOutcome result))

/-- Each further attempt starts a retry interval later or at the end of the window, which bounds
their number. -/
def admitOneShotWithRetry : Option AdmitRun :=
  admitFrom debugOutcome window channel wait answers timing (window / initiateRetryInterval + 2) 0 0
    none

end

/-- What the edge and the transport answer to one attempt. -/
inductive BrokerAnswer where
  | outcome (o : ChannelJoinOutcome)
  | dialFailed (e : ForeignError)
  | exchangeFailed (e : ForeignError)
  | timedOut

/-- The plain path: `connect`, then the join, with every error as it comes. -/
def plainAnswer : BrokerAnswer → Except BoxError ChannelJoinOutcome
  | .outcome o => .ok o
  | .dialFailed e => .error (.foreign e)
  | .exchangeFailed e => .error (.foreign e)
  | .timedOut => .error (.foreign ⟨"timed out", none⟩)

/-- The direct rung that meets these answers. -/
def directRung : BrokerAnswer → ChannelDialRung
  | .outcome o => ⟨.direct, .connected, .ok (), .ok o⟩
  | .dialFailed e => ⟨.direct, .failed e, .ok (), .ok .parkExpired⟩
  | .exchangeFailed e => ⟨.direct, .connected, .ok (), .error e⟩
  | .timedOut => ⟨.direct, .timedOut, .ok (), .ok .parkExpired⟩

def ladderAnswer (a : BrokerAnswer) : Except BoxError ChannelJoinOutcome :=
  presentChannelJoinViaLadder [directRung a]

/-! The course of a window that nothing settles: when its attempts start, which one is cut, and where
the window closes. It depends on the timing alone. -/

section
variable (wait : InitiateWait) (window : Duration) (timing : ℕ → AttemptTiming)

def startAt : ℕ → Duration
  | 0 => 0
  | k + 1 => nextStart window (attemptDone wait window (startAt k) (timing k)) (timing k)

def cutAt (k : ℕ) : Bool := cutAttempt wait window (startAt wait window timing k) (timing k)

def closesAt (k : ℕ) : Bool :=
  windowCloses wait window (attemptDone wait window (startAt wait window timing k) (timing k))

variable {wait window timing}

theorem closesAt_of_le {k : ℕ} (h : window ≤ startAt wait window timing k) :
    closesAt wait window timing k = true := by
  have hdone : window ≤ attemptDone wait window (startAt wait window timing k) (timing k) := by
    unfold attemptDone
    split
    · exact Nat.le_add_right _ _
    · exact h.trans (Nat.le_add_right _ _)
  simp [closesAt, windowCloses, hdone]

theorem closesAt_of_cutAt {k : ℕ} (h : cutAt wait window timing k = true) :
    closesAt wait window timing k = true := by
  unfold cutAt at h
  simp [closesAt, windowCloses, attemptDone, h]

variable (wait window timing) in
theorem le_startAt (k : ℕ) :
    window ≤ startAt wait window timing k ∨
      k * initiateRetryInterval ≤ startAt wait window timing k := by
  induction k with
  | zero => simp [startAt]
  | succ k ih =>
    let now := attemptDone wait window (startAt wait window timing k) (timing k)
    have hnext : min window (now + initiateRetryInterval) ≤ startAt wait window timing (k + 1) :=
      Nat.le_add_right _ _
    by_cases hw : window ≤ now + initiateRetryInterval
    · rw [Nat.min_eq_left hw] at hnext
      exact .inl hnext
    · -- the attempt was not cut: it ended before the window did
      have hlt : now + initiateRetryInterval < window := Nat.lt_of_not_le hw
      rw [Nat.min_eq_right hlt.le] at hnext
      have hstart : startAt wait window timing k ≤ now := by
        simp only [now, attemptDone] at hlt ⊢
        split
        · rename_i hcut
          rw [if_pos hcut] at hlt
          exact absurd ((Nat.le_add_right _ _).trans (Nat.le_add_right _ _)) (Nat.not_le.mpr hlt)
        · exact Nat.le_add_right _ _
      rcases ih with ih | ih
      · exact absurd (ih.trans (hstart.trans (Nat.le_add_right _ _))) (Nat.not_le.mpr hlt)
      · right
        rw [Nat.succ_mul]
        exact (Nat.add_le_add_right (ih.trans hstart) _).trans hnext

/-- The window closes within the attempts the loop can make. -/
theorem closesAt_last : closesAt wait window timing (window / initiateRetryInterval + 1) = true := by
  apply closesAt_of_le
  rcases le_startAt wait window timing (window / initiateRetryInterval + 1) with h | h
  · exact h
  · have hlt : window < (window / initiateRetryInterval + 1) * initiateRetryInterval := by
      have hpos : 0 < initiateRetryInterval := by decide
      exact Nat.lt_mul_of_div_lt (Nat.lt_succ_self _) hpos
    exact hlt.le.trans h

end

section
variable (debugOutcome : ChannelJoinOutcome → String) (window : Duration) (channel : Key)
  (wait : InitiateWait) (answers : ℕ → Except BoxError ChannelJoinOutcome)
  (timing : ℕ → AttemptTiming)

/-- The text of the attempt before `k`. -/
def previousAt : ℕ → Option String
  | 0 => none
  | k + 1 => some (describe debugOutcome
      (if cutAt wait window timing k then .error (.text (cutText (previousAt k))) else answers k))

/-- The result attempt `k` has for the loop. -/
def resultAt (k : ℕ) : Except BoxError ChannelJoinOutcome :=
  if cutAt wait window timing k then
    .error (.text (cutText (previousAt debugOutcome window wait answers timing k)))
  else answers k

/-- What the window ends in when attempt `k` is its last. -/
def endAt (k : ℕ) : Except BoxError ChannelJoinOutcome :=
  let result := resultAt debugOutcome window wait answers timing k
  if settles result then result
  else .error (noAcceptor debugOutcome channel window (k + 1) result)

def stopsAt (k : ℕ) : Bool :=
  settles (resultAt debugOutcome window wait answers timing k) || closesAt wait window timing k

variable {debugOutcome window channel wait answers timing}

/-- The loop runs through the attempts that neither settle nor close the window. -/
theorem admitFrom_eq {last : ℕ}
    (hgo : ∀ j < last, stopsAt debugOutcome window wait answers timing j = false)
    (hstop : stopsAt debugOutcome window wait answers timing last = true) (n k : ℕ)
    (hk : k + n = last) (fuel : ℕ) (hfuel : n < fuel) :
    admitFrom debugOutcome window channel wait answers timing fuel k (startAt wait window timing k)
        (previousAt debugOutcome window wait answers timing k) =
      some ⟨last + 1, endAt debugOutcome window channel wait answers timing last⟩ := by
  obtain ⟨fuel, rfl⟩ := Nat.exists_eq_succ_of_ne_zero (Nat.ne_zero_of_lt hfuel)
  have hround : admitFrom debugOutcome window channel wait answers timing (fuel + 1) k
      (startAt wait window timing k) (previousAt debugOutcome window wait answers timing k) =
      (let result := resultAt debugOutcome window wait answers timing k
      if settles result then some ⟨k + 1, result⟩
      else if closesAt wait window timing k then
        some ⟨k + 1, .error (noAcceptor debugOutcome channel window (k + 1) result)⟩
      else admitFrom debugOutcome window channel wait answers timing fuel (k + 1)
        (startAt wait window timing (k + 1))
        (previousAt debugOutcome window wait answers timing (k + 1))) := rfl
  rw [hround]
  induction n generalizing k fuel with
  | zero =>
    obtain rfl : k = last := by omega
    unfold stopsAt at hstop
    unfold endAt
    by_cases hs : settles (resultAt debugOutcome window wait answers timing k) = true
    · simp [hs]
    · simp only [hs, Bool.false_or] at hstop
      simp [hs, hstop]
  | succ n ih =>
    have hgo' := hgo k (by omega)
    simp only [stopsAt, Bool.or_eq_false_iff] at hgo'
    simp only [hgo'.1, hgo'.2, Bool.false_eq_true, if_false]
    obtain ⟨fuel, rfl⟩ := Nat.exists_eq_succ_of_ne_zero (n := fuel) (by omega)
    exact ih (k + 1) (by omega) fuel (by omega) rfl

theorem admitOneShotWithRetry_eq {last : ℕ}
    (hgo : ∀ j < last, stopsAt debugOutcome window wait answers timing j = false)
    (hstop : stopsAt debugOutcome window wait answers timing last = true) :
    admitOneShotWithRetry debugOutcome window channel wait answers timing =
      some ⟨last + 1, endAt debugOutcome window channel wait answers timing last⟩ := by
  have hlast : last ≤ window / initiateRetryInterval + 1 := by
    by_contra hlt
    have hclose := hgo (window / initiateRetryInterval + 1) (by omega)
    simp [stopsAt, closesAt_last] at hclose
  exact admitFrom_eq hgo hstop last 0 (by omega) _ (by omega)

variable (debugOutcome window wait answers timing) in
/-- Every window ends. -/
theorem exists_last :
    ∃ last, (∀ j < last, stopsAt debugOutcome window wait answers timing j = false) ∧
      stopsAt debugOutcome window wait answers timing last = true := by
  have hex : ∃ k, stopsAt debugOutcome window wait answers timing k = true :=
    ⟨window / initiateRetryInterval + 1, by simp [stopsAt, closesAt_last]⟩
  refine ⟨Nat.find hex, ?_, Nat.find_spec hex⟩
  intro j hj
  simpa using Nat.find_min hex hj

end

/-! The texts the loop puts around a result neither hold nor complete the refusal text. -/

theorem repr_notMem_r (n : ℕ) : 'r' ∉ (Nat.repr n).toList := by
  intro h
  rw [Nat.toList_repr] at h
  exact absurd (Nat.isDigit_of_mem_toDigits (by norm_num) (by norm_num) h) (by decide)

theorem hex_notMem_r (key : Key) : 'r' ∉ (hex key).toList := by
  intro h
  exact absurd (Codec.mem_hexEncode h) (by decide)

theorem refusalText_toList : refusalText.toList = 'r' :: "efused the channel join".toList := by
  decide

section
variable {debugOutcome : ChannelJoinOutcome → String}

theorem contains_append_closing (s : String) :
    contains (s ++ ")") refusalText = contains s refusalText :=
  contains_append_right (c := ')') (r := []) s (by decide) (by decide) (by decide)

theorem windowReason_contains (result : Except BoxError ChannelJoinOutcome) :
    contains (windowReason debugOutcome result) refusalText =
      contains (describe debugOutcome result) refusalText := by
  cases result with
  | ok outcome =>
    have hfront := contains_append_left (debugOutcome outcome ++ ")")
      (by decide +kernel : EndsClear refusalText.toList lastOutcomeText.toList) (by decide +kernel)
    exact hfront.trans (contains_append_closing _)
  | error e => exact contains_append_left e.toString (by decide +kernel) (by decide +kernel)

theorem cutText_contains (p : String) :
    contains (cutText (some p)) refusalText = contains p refusalText := by
  have hfront := contains_append_left (p ++ ")")
    (by decide +kernel : EndsClear refusalText.toList previousAttemptText.toList) (by decide +kernel)
  exact hfront.trans (contains_append_closing p)

theorem noAcceptor_definitive (channel : Key) (window : Duration) (attempt : ℕ)
    (result : Except BoxError ChannelJoinOutcome) :
    isDefinitiveAdmissionRefusal (noAcceptor debugOutcome channel window attempt result) =
      contains (describe debugOutcome result) refusalText := by
  have htext : isDefinitiveAdmissionRefusal
      (noAcceptor debugOutcome channel window attempt result) =
      contains (noAcceptor debugOutcome channel window attempt result).toString refusalText := by
    simp [isDefinitiveAdmissionRefusal, noAcceptor, BoxError.admissionRefusal]
  rw [htext]
  simp only [noAcceptor, BoxError.toString]
  rw [contains_append_left _ (by decide +kernel) (by decide +kernel),
    contains_append_left_of_notMem _ refusalText_toList (hex_notMem_r channel),
    contains_append_left _ (by decide +kernel) (by decide +kernel),
    contains_append_left_of_notMem _ refusalText_toList (repr_notMem_r _),
    contains_append_left _ (by decide +kernel) (by decide +kernel),
    contains_append_left_of_notMem _ refusalText_toList (repr_notMem_r _),
    contains_append_left _ (by decide +kernel) (by decide +kernel), windowReason_contains]

end

section
variable {debugOutcome : ChannelJoinOutcome → String} {window : Duration} {wait : InitiateWait}
  {answers : ℕ → Except BoxError ChannelJoinOutcome} {timing : ℕ → AttemptTiming}

/-- Behind a cut stands the attempt before it, which was not cut itself. -/
theorem resultAt_contains {k : ℕ} (hgo : ∀ j < k, closesAt wait window timing j = false) :
    contains (describe debugOutcome (resultAt debugOutcome window wait answers timing k))
        refusalText =
      if cutAt wait window timing k then
        if k = 0 then false else contains (describe debugOutcome (answers (k - 1))) refusalText
      else contains (describe debugOutcome (answers k)) refusalText := by
  unfold resultAt
  by_cases hc : cutAt wait window timing k = true
  · rw [if_pos hc, if_pos hc]
    show contains (cutText (previousAt debugOutcome window wait answers timing k)) refusalText = _
    cases k with
    | zero =>
      show contains (cutText none) refusalText = false
      decide
    | succ j =>
      have hj : cutAt wait window timing j = false := by
        by_contra hcut
        have := closesAt_of_cutAt (by simpa using hcut)
        simp [hgo j (Nat.lt_succ_self j)] at this
      simp [previousAt, hj, cutText_contains]
  · simp [hc]

end

/-! The two paths, given the same answers. -/

theorem ladderAnswer_outcome (o : ChannelJoinOutcome) :
    ladderAnswer (.outcome o) = match o with
      | .refused category => .error (.dial (.failed (boxedWithCategory brokerRefusal category)))
      | other => .ok other := by
  cases o <;> rfl

theorem boxedWithCategory_contains (category : Option String) :
    contains (BoxError.dial (.failed (boxedWithCategory brokerRefusal category))).toString
      refusalText = true := by
  have hfront := boxedWithCategory_text brokerRefusal category
  have hbase : refusalText.toList <:+: brokerRefusal.toList := by decide
  have htext : contains ("direct dial failed: " ++
      (boxedWithCategory brokerRefusal category).toString) refusalText = true := by
    simp only [contains, String.toList_append, decide_eq_true_eq]
    exact hbase.trans (hfront.isInfix.trans (List.suffix_append _ _).isInfix)
  exact htext

section
variable (debugOutcome : ChannelJoinOutcome → String)

/-- The refusal text stands in an attempt's description on both paths alike, a refusal apart. -/
theorem describe_ladder_contains (b : BrokerAnswer) :
    contains (describe debugOutcome (ladderAnswer b)) refusalText =
      match b with
      | .outcome (.refused _) => true
      | b => contains (describe debugOutcome (plainAnswer b)) refusalText := by
  cases b with
  | outcome o =>
    cases o with
    | refused category => exact boxedWithCategory_contains category
    | admitted | parkExpired => rfl
  | dialFailed e | exchangeFailed e => exact contains_append_left e.text (by decide) (by decide)
  | timedOut =>
    show contains "peer unreachable on the direct path" refusalText = contains "timed out" refusalText
    decide

end

theorem settles_plain (b : BrokerAnswer) :
    settles (plainAnswer b) = true ↔ ∃ e n h t, b = .outcome (.admitted e n h t) := by
  cases b with
  | outcome o => cases o <;> simp [plainAnswer, settles]
  | _ => simp [plainAnswer, settles, isRevokedGrantRefusal, BoxError.admissionRefusal]

theorem settles_ladder (b : BrokerAnswer) :
    settles (ladderAnswer b) = true ↔
      (∃ e n h t, b = .outcome (.admitted e n h t)) ∨
        b = .outcome (.refused (some grantRevokedCategory)) := by
  cases b with
  | outcome o =>
    rw [ladderAnswer_outcome]
    cases o with
    | refused category =>
      obtain ⟨text, hr⟩ := refused_admissionRefusal category
      simp [settles, isRevokedGrantRefusal, hr]
    | admitted | parkExpired => simp [settles]
  | dialFailed e | exchangeFailed e | timedOut =>
    simp [ladderAnswer, directRung, presentChannelJoinViaLadder, dialLadder, dialLadderFrom,
      ChannelDialRung.present, ChannelDialKind.isFrontDoor, dialPeerDirect, settles,
      isRevokedGrantRefusal, BoxError.admissionRefusal, ChannelDialError.admissionRefusal]

section
variable (debugOutcome : ChannelJoinOutcome → String) (window : Duration) (channel : Key)
  (wait : InitiateWait) (a : ℕ → BrokerAnswer) (timing : ℕ → AttemptTiming)

def plainRun : Option AdmitRun :=
  admitOneShotWithRetry debugOutcome window channel wait (fun k => plainAnswer (a k)) timing

def ladderRun : Option AdmitRun :=
  admitOneShotWithRetry debugOutcome window channel wait (fun k => ladderAnswer (a k)) timing

def AdmittedAt (k : ℕ) : Prop :=
  cutAt wait window timing k = false ∧ ∃ e n h t, a k = .outcome (.admitted e n h t)

def RevokedAt (k : ℕ) : Prop :=
  cutAt wait window timing k = false ∧ a k = .outcome (.refused (some grantRevokedCategory))

/-- Attempt `k` is made unless something settles the window or closes it before. -/
def MadeAt (k : ℕ) : Prop :=
  ∀ j < k, closesAt wait window timing j = false ∧ ¬ AdmittedAt window wait a timing j

/-- The answer the window's own error names when attempt `k` is the last: the one before, if that
attempt was cut. -/
def namedAt (k : ℕ) : Option BrokerAnswer :=
  if cutAt wait window timing k then (if k = 0 then none else some (a (k - 1))) else some (a k)

/-- What the callers' classifiers say of two results. -/
def JudgedAlike : Except BoxError ChannelJoinOutcome → Except BoxError ChannelJoinOutcome → Prop
  | .ok o, .ok o' => o = o'
  | .error e, .error e' =>
    isDefinitiveAdmissionRefusal e = isDefinitiveAdmissionRefusal e' ∧
      isRevokedGrantRefusal e = isRevokedGrantRefusal e' ∧
      ∀ ownExpiresAt now, (ownGrantRefusal e ownExpiresAt now).isSome =
        (ownGrantRefusal e' ownExpiresAt now).isSome
  | _, _ => False

def RecognisedOwnEnd (result : Except BoxError ChannelJoinOutcome) : Prop :=
  ∃ e, result = .error e ∧ ∀ ownExpiresAt now, (ownGrantRefusal e ownExpiresAt now).isSome = true

/-- The two paths treat a refusal alike. -/
def PathsAlike : Prop :=
  ∃ plain ladder, plainRun debugOutcome window channel wait a timing = some plain ∧
    ladderRun debugOutcome window channel wait a timing = some ladder ∧
    plain.attempts = ladder.attempts ∧ JudgedAlike plain.result ladder.result ∧
    ∀ k < plain.attempts, RevokedAt window wait a timing k →
      k + 1 = plain.attempts ∧ RecognisedOwnEnd plain.result ∧ RecognisedOwnEnd ladder.result

variable {debugOutcome window channel wait a timing}

variable (debugOutcome) in
theorem stopsAt_plain (k : ℕ) :
    stopsAt debugOutcome window wait (fun k => plainAnswer (a k)) timing k = true ↔
      AdmittedAt window wait a timing k ∨ closesAt wait window timing k = true := by
  unfold stopsAt resultAt AdmittedAt
  by_cases hc : cutAt wait window timing k = true
  · simp [closesAt_of_cutAt hc]
  · simp [hc, settles_plain]

theorem stopsAt_ladder (k : ℕ) :
    stopsAt debugOutcome window wait (fun k => ladderAnswer (a k)) timing k = true ↔
      (AdmittedAt window wait a timing k ∨ RevokedAt window wait a timing k) ∨
        closesAt wait window timing k = true := by
  unfold stopsAt resultAt AdmittedAt RevokedAt
  by_cases hc : cutAt wait window timing k = true
  · simp [closesAt_of_cutAt hc]
  · simp [hc, settles_ladder]

/-- The window's own error is text: no typed refusal, and definitive only by what it names. -/
theorem noAcceptor_judged (k : ℕ) (result : Except BoxError ChannelJoinOutcome) :
    isRevokedGrantRefusal (noAcceptor debugOutcome channel window k result) = false ∧
      ∀ ownExpiresAt now,
        ownGrantRefusal (noAcceptor debugOutcome channel window k result) ownExpiresAt now = none := by
  simp [noAcceptor, isRevokedGrantRefusal, ownGrantRefusal, BoxError.admissionRefusal]

variable (debugOutcome) in
theorem plain_settles_iff (k : ℕ) :
    settles (resultAt debugOutcome window wait (fun k => plainAnswer (a k)) timing k) = true ↔
      AdmittedAt window wait a timing k := by
  unfold resultAt AdmittedAt
  by_cases hc : cutAt wait window timing k = true
  · simp [hc, settles, isRevokedGrantRefusal, BoxError.admissionRefusal]
  · simp [hc, settles_plain]

variable (debugOutcome) in
theorem ladder_settles_iff (k : ℕ) :
    settles (resultAt debugOutcome window wait (fun k => ladderAnswer (a k)) timing k) = true ↔
      AdmittedAt window wait a timing k ∨ RevokedAt window wait a timing k := by
  unfold resultAt AdmittedAt RevokedAt
  by_cases hc : cutAt wait window timing k = true
  · simp [hc, settles, isRevokedGrantRefusal, BoxError.admissionRefusal]
  · simp [hc, settles_ladder]

/-- No attempt that is made is answered that the grant is revoked, and the answer the window's error
names is no refusal (or one whose `Debug` text has the refusal text in it by itself). -/
def RefusalFree (debugOutcome : ChannelJoinOutcome → String) (window : Duration)
    (wait : InitiateWait) (a : ℕ → BrokerAnswer) (timing : ℕ → AttemptTiming) : Prop :=
  ∀ k, MadeAt window wait a timing k → ¬ RevokedAt window wait a timing k ∧
    (closesAt wait window timing k = true → ¬ AdmittedAt window wait a timing k →
      ∀ category, namedAt window wait a timing k = some (.outcome (.refused category)) →
        contains (debugOutcome (.refused category)) refusalText = true)

variable (debugOutcome window channel wait a timing) in
/-- The attempt at which the plain path stops. -/
theorem exists_plain_last :
    ∃ last, MadeAt window wait a timing last ∧
      (AdmittedAt window wait a timing last ∨ closesAt wait window timing last = true) ∧
      plainRun debugOutcome window channel wait a timing = some ⟨last + 1,
        endAt debugOutcome window channel wait (fun k => plainAnswer (a k)) timing last⟩ := by
  obtain ⟨last, hgo, hstop⟩ :=
    exists_last debugOutcome window wait (fun k => plainAnswer (a k)) timing
  refine ⟨last, ?_, (stopsAt_plain debugOutcome last).mp hstop, admitOneShotWithRetry_eq hgo hstop⟩
  intro j hj
  have h : ¬ (AdmittedAt window wait a timing j ∨ closesAt wait window timing j = true) := by
    rw [← stopsAt_plain debugOutcome, hgo j hj]
    exact Bool.false_ne_true
  push Not at h
  exact ⟨by simpa using h.2, h.1⟩

/-- Without a revoked attempt the ladder stops there too. -/
theorem ladderRun_eq {last : ℕ} (hmade : MadeAt window wait a timing last)
    (hstop : AdmittedAt window wait a timing last ∨ closesAt wait window timing last = true)
    (hfree : ∀ j < last, ¬ RevokedAt window wait a timing j) :
    ladderRun debugOutcome window channel wait a timing = some ⟨last + 1,
      endAt debugOutcome window channel wait (fun k => ladderAnswer (a k)) timing last⟩ := by
  apply admitOneShotWithRetry_eq
  · intro j hj
    have hj' := hmade j hj
    have : ¬ stopsAt debugOutcome window wait (fun k => ladderAnswer (a k)) timing j = true := by
      rw [stopsAt_ladder]
      simp [hj'.1, hj'.2, hfree j hj]
    simpa using this
  · rw [stopsAt_ladder]
    rcases hstop with h | h
    · exact .inl (.inl h)
    · exact .inr h

variable (debugOutcome channel) in
theorem endAt_admitted {last : ℕ} (h : AdmittedAt window wait a timing last) :
    endAt debugOutcome window channel wait (fun k => plainAnswer (a k)) timing last =
        plainAnswer (a last) ∧
      endAt debugOutcome window channel wait (fun k => ladderAnswer (a k)) timing last =
        plainAnswer (a last) := by
  obtain ⟨hcut, e, n, hh, t, ha⟩ := h
  have hladder : ladderAnswer (a last) = plainAnswer (a last) := by
    rw [ha]
    rfl
  have hsettles : settles (plainAnswer (a last)) = true :=
    (settles_plain (a last)).mpr ⟨e, n, hh, t, ha⟩
  simp [endAt, resultAt, hcut, hladder, hsettles]

variable (debugOutcome channel) in
theorem endAt_plain_closed {last : ℕ} (h : ¬ AdmittedAt window wait a timing last) :
    ∃ result, endAt debugOutcome window channel wait (fun k => plainAnswer (a k)) timing last =
      .error (noAcceptor debugOutcome channel window (last + 1) result) := by
  rw [← plain_settles_iff debugOutcome] at h
  exact ⟨_, by rw [endAt, if_neg h]⟩

/-- At the last attempt, without a revoked grant: the two ends are judged alike unless the error names
a refusal. -/
theorem endAt_alike_iff {last : ℕ} (hmade : MadeAt window wait a timing last)
    (hfree : ¬ RevokedAt window wait a timing last) :
    JudgedAlike (endAt debugOutcome window channel wait (fun k => plainAnswer (a k)) timing last)
        (endAt debugOutcome window channel wait (fun k => ladderAnswer (a k)) timing last) ↔
      (¬ AdmittedAt window wait a timing last → ∀ category,
        namedAt window wait a timing last = some (.outcome (.refused category)) →
          contains (debugOutcome (.refused category)) refusalText = true) := by
  by_cases hadm : AdmittedAt window wait a timing last
  · obtain ⟨hp, hl⟩ := endAt_admitted debugOutcome channel hadm
    obtain ⟨-, e, n, hh, t, ha⟩ := id hadm
    rw [hp, hl, ha]
    exact iff_of_true rfl (fun h => absurd hadm h)
  have hp := mt (plain_settles_iff debugOutcome last).mp hadm
  have hl := mt (ladder_settles_iff debugOutcome last).mp (by tauto)
  rw [endAt, endAt, if_neg hp, if_neg hl]
  -- both ends are the window's own error; they differ at most in the refusal text
  have hgo : ∀ j < last, closesAt wait window timing j = false := fun j hj => (hmade j hj).1
  have hjudged (r r' : Except BoxError ChannelJoinOutcome) :
      JudgedAlike (.error (noAcceptor debugOutcome channel window (last + 1) r))
        (.error (noAcceptor debugOutcome channel window (last + 1) r')) ↔
      contains (describe debugOutcome r) refusalText =
        contains (describe debugOutcome r') refusalText := by
    simp [JudgedAlike, noAcceptor_judged, noAcceptor_definitive]
  have hnamed (b : BrokerAnswer) :
      contains (describe debugOutcome (plainAnswer b)) refusalText =
        contains (describe debugOutcome (ladderAnswer b)) refusalText ↔
      ∀ category, b = .outcome (.refused category) →
        contains (debugOutcome (.refused category)) refusalText = true := by
    rw [describe_ladder_contains]
    rcases b with (_ | category | _) | _ | _ | _ <;> simp [plainAnswer, describe]
  rw [hjudged, resultAt_contains hgo, resultAt_contains hgo]
  unfold namedAt
  split
  · split
    · simp
    · simpa [hadm] using hnamed (a (last - 1))
  · simpa [hadm] using hnamed (a last)

variable (debugOutcome window channel wait a timing) in
/-- The two admission paths treat every refusal alike exactly when none of them matters. -/
theorem paths_alike_iff :
    PathsAlike debugOutcome window channel wait a timing ↔
      RefusalFree debugOutcome window wait a timing := by
  obtain ⟨last, hmade, hstop, hplain⟩ :=
    exists_plain_last debugOutcome window channel wait a timing
  have hle {k : ℕ} (hk : MadeAt window wait a timing k) : k ≤ last := by
    by_contra hlt
    obtain ⟨hopen, hadm⟩ := hk last (by omega)
    rcases hstop with h | h
    · exact hadm h
    · simp [hopen] at h
  have hearlier {k : ℕ} (hk : k ≤ last) : MadeAt window wait a timing k :=
    fun j hj => hmade j (by omega)
  constructor
  · rintro ⟨plain, ladder, hp, hl, -, hjudged, hrevoked⟩
    obtain rfl := Option.some.inj (hplain.symm.trans hp)
    have hfree {k : ℕ} (hk : k ≤ last) : ¬ RevokedAt window wait a timing k := by
      intro hr
      obtain ⟨-, ⟨e, he, hown⟩, -⟩ := hrevoked k (by simpa using Nat.lt_succ_of_le hk) hr
      by_cases hadm : AdmittedAt window wait a timing last
      · rw [(endAt_admitted debugOutcome channel hadm).1] at he
        obtain ⟨-, e', n, hh, t, ha⟩ := hadm
        simp [ha, plainAnswer] at he
      · obtain ⟨result, hend⟩ := endAt_plain_closed debugOutcome channel hadm
        rw [hend] at he
        obtain rfl := Except.error.inj he
        have := hown none 0
        simp [noAcceptor_judged] at this
    obtain rfl := Option.some.inj
      ((ladderRun_eq hmade hstop (fun j hj => hfree hj.le)).symm.trans hl)
    intro k hk
    refine ⟨hfree (hle hk), ?_⟩
    intro hclose
    obtain rfl : k = last := by
      rcases Nat.lt_or_ge k last with hlt | hge
      · simp [(hmade k hlt).1] at hclose
      · exact Nat.le_antisymm (hle hk) hge
    exact (endAt_alike_iff hmade (hfree le_rfl)).mp hjudged
  · intro hcond
    have hfree {k : ℕ} (hk : k ≤ last) : ¬ RevokedAt window wait a timing k :=
      (hcond k (hearlier hk)).1
    refine ⟨_, _, hplain, ladderRun_eq hmade hstop (fun j hj => hfree hj.le), rfl, ?_, ?_⟩
    · refine (endAt_alike_iff hmade (hfree le_rfl)).mpr ?_
      intro hadm
      exact (hcond last hmade).2 (hstop.resolve_left hadm) hadm
    · intro k hk hr
      exact absurd hr (hfree (Nat.le_of_lt_succ hk))

end

/-- The derived `Debug` of the outcomes a window can end with. -/
def sampleDebug : ChannelJoinOutcome → String
  | .refused (some category) => "Refused \x7b category: Some(\"" ++ (category ++ "\") \x7d")
  | .refused none => "Refused \x7b category: None \x7d"
  | .parkExpired => "ParkExpired"
  | .admitted _ _ _ _ => "Admitted"

/-- A window of five seconds whose attempts are all answered `grant-revoked`: the ladder stops at the
first, the plain path makes three. -/
theorem plain_path_retries_revoked :
    ¬ PathsAlike sampleDebug (secs 5) (Vector.replicate 32 0) .persistent
      (fun _ => .outcome (.refused (some "grant-revoked"))) (fun _ => ⟨100000000, 0, 0⟩) := by
  rintro ⟨plain, ladder, hp, hl, hn, -⟩
  have hplain : (plainRun sampleDebug (secs 5) (Vector.replicate 32 0) .persistent
      (fun _ => .outcome (.refused (some "grant-revoked"))) (fun _ => ⟨100000000, 0, 0⟩)).map
        AdmitRun.attempts = some 3 := by decide
  have hladder : (ladderRun sampleDebug (secs 5) (Vector.replicate 32 0) .persistent
      (fun _ => .outcome (.refused (some "grant-revoked"))) (fun _ => ⟨100000000, 0, 0⟩)).map
        AdmitRun.attempts = some 1 := by decide
  rw [hp, Option.map_some, Option.some.injEq] at hplain
  rw [hl, Option.map_some, Option.some.injEq] at hladder
  omega

end CtAgent.Admission
