import CtAgent.Lib.NetAddr
import CtAgent.Lib.Run
import CtAgent.Channel.PeerGrant

/-! The re-check of the peer's grant while a forward session runs: `watch_peer_grant`, its timing and
the reading of the control plane's answers. Times and durations are nanoseconds. -/
namespace CtAgent.Channel.GrantWatch
open CtAgent.Lib

abbrev Duration := ℕ

def secs (n : ℕ) : Duration := n * 10^9
def asSecs (d : Duration) : ℕ := d / 10^9

def recheckSecsEnv : String := "CT_CHANNEL_GRANT_RECHECK_SECS"
def recheckGraceSecsEnv : String := "CT_CHANNEL_GRANT_RECHECK_GRACE_SECS"
def defaultIntervalSecs : ℕ := 30
def minIntervalSecs : ℕ := 5
def defaultGraceSecs : ℕ := 90

/-- `require`: a control plane without the endpoint counts as unreadable. -/
structure WatchConfig where
  interval : Duration
  grace : Duration
  require : Bool
  deriving DecidableEq, Repr

inductive GrantState where
  | valid | revoked | notMember | askerNotMember
  deriving DecidableEq, Repr

inductive StatusError where
  | unsupported
  | unreadable (why : String)
  deriving DecidableEq, Repr

abbrev Verdict := Except StatusError GrantState

section
-- the `Debug` text of a string, and what serde_json finds as the string under `"state"` in a body
variable (debug : String → String) (state : String → Option String)

/-- A number of seconds from the environment; a blank one counts as absent. -/
def readSecs (f : String → Option String) (key : String) (default : ℕ) : Except String ℕ :=
  match ((f key).map trim).filter (· ≠ "") with
  | none => .ok default
  | some s =>
    match parseUint (2^64) s with
    | some n => .ok n
    | none => .error s!"{key} must be a whole number of seconds, got {debug s}"

def WatchConfig.fromLookup (f : String → Option String) : Except String WatchConfig := do
  let interval ← readSecs debug f recheckSecsEnv defaultIntervalSecs
  let grace ← readSecs debug f recheckGraceSecsEnv defaultGraceSecs
  return ⟨secs (max interval minIntervalSecs), secs (max grace (max interval minIntervalSecs)), false⟩

variable {debug} in
/-- The timing an operator can set: a floor for the interval, and a grace of at least one interval. -/
theorem fromLookup_timing {f : String → Option String} {cfg : WatchConfig}
    (h : WatchConfig.fromLookup debug f = .ok cfg) :
    secs minIntervalSecs ≤ cfg.interval ∧ cfg.interval ≤ cfg.grace ∧ cfg.require = false := by
  unfold WatchConfig.fromLookup at h
  cases hi : readSecs debug f recheckSecsEnv defaultIntervalSecs with
  | error e =>
    rw [hi] at h
    cases h
  | ok interval =>
    cases hg : readSecs debug f recheckGraceSecsEnv defaultGraceSecs with
    | error e =>
      rw [hi, hg] at h
      cases h
    | ok grace =>
      rw [hi, hg] at h
      rw [← Except.ok.inj h]
      refine ⟨Nat.mul_le_mul_right _ (Nat.le_max_right _ _), ?_, rfl⟩
      exact Nat.mul_le_mul_right _ (Nat.le_max_right _ _)

end

/-- Where the loop stands. `until_` is when its sleep is over, `since` when it put the question. -/
inductive Phase where
  | sleeping (until_ : ℕ)
  | asking (since : ℕ)
  | closed
  | ended (e : GrantEnd)
  deriving DecidableEq, Repr

structure Watch where
  now : ℕ
  phase : Phase
  lastValid : ℕ
  warned : Bool
  notices : List String
  log : List String
  deriving DecidableEq, Repr

/-- The first question is asked at once. -/
def start (now : ℕ) : Watch := ⟨now, .asking now, now, false, [], []⟩

def noEndpoint : String := "the control plane has no /channel/grant-status"

/-- Under `require` an unsupported endpoint is as good as unreadable. -/
def strict (cfg : WatchConfig) : Verdict → Verdict
  | .error .unsupported => if cfg.require then .error (.unreadable noEndpoint) else .error .unsupported
  | v => v

def revokedEnd : GrantEnd := ⟨.peer, "the peer's grant was revoked"⟩
def notMemberEnd : GrantEnd := ⟨.peer, "the peer is no longer a member of the channel"⟩

def askerEnd : GrantEnd :=
  ⟨.own, "this member is no longer a member of the channel (the control plane answered asker-not-member)"⟩

def silentEnd (silent : Duration) (why : String) : GrantEnd :=
  ⟨.peer, s!"the peer's grant could not be re-checked for {asSecs silent}s ({why}); failing closed"⟩

def unsupportedWarning : String :=
  "WARNING: this control plane has no /channel/grant-status; a revoked grant will NOT end this forward " ++
    "session until it is upgraded (the session keeps running and asks again)"

def unreadableLine (cfg : WatchConfig) (silent : Duration) (why : String) : String :=
  s!"ct-agent channel: grant re-check unreadable for {asSecs silent}s (limit {asSecs cfg.grace}s): {why}"

/-- What the loop makes of an answer that arrives now. -/
def hear (cfg : WatchConfig) (w : Watch) (v : Verdict) : Watch :=
  match strict cfg v with
  | .ok .valid => { w with lastValid := w.now, phase := .sleeping (w.now + cfg.interval) }
  | .ok .revoked => { w with phase := .ended revokedEnd }
  | .ok .notMember => { w with phase := .ended notMemberEnd }
  | .ok .askerNotMember => { w with phase := .ended askerEnd }
  | .error .unsupported =>
    { w with
      lastValid := w.now
      warned := true
      notices := if w.warned then w.notices else w.notices ++ [unsupportedWarning]
      phase := .sleeping (w.now + cfg.interval) }
  | .error (.unreadable why) =>
    if w.now - w.lastValid < cfg.grace then
      { w with
        log := w.log ++ [unreadableLine cfg (w.now - w.lastValid) why]
        phase := .sleeping (w.now + cfg.interval) }
    else { w with phase := .ended (silentEnd (w.now - w.lastValid) why) }

inductive Event where
  | pass (d : Duration)
  | wake
  | answered (v : Verdict)
  | sessionOver
  deriving DecidableEq, Repr

/-- A sleep is over at its time: the clock does not pass it before the loop wakes. -/
def step (cfg : WatchConfig) (w : Watch) : Event → Option Watch
  | .pass d =>
    match w.phase with
    | .sleeping until_ => if w.now + d ≤ until_ then some { w with now := w.now + d } else none
    | _ => some { w with now := w.now + d }
  | .wake =>
    match w.phase with
    | .sleeping until_ => if until_ ≤ w.now then some { w with phase := .asking w.now } else none
    | _ => none
  | .answered v =>
    match w.phase with
    | .asking _ => some (hear cfg w v)
    | _ => none
  | .sessionOver =>
    match w.phase with
    | .sleeping _ | .asking _ => some { w with phase := .closed }
    | _ => none

/-! What the control plane's answer means, by its code and the state it names. -/

/-! The loop against its answers: when it ends the session, and how old the last good answer may be
until then. -/
section
variable {cfg : WatchConfig} {t₀ : ℕ}

/-- An answer that starts the grace anew. -/
def isGood (cfg : WatchConfig) : Verdict → Bool
  | .ok .valid => true
  | .error .unsupported => !cfg.require
  | _ => false

/-- The time of the last good answer, of the start without one. -/
def lastGood (cfg : WatchConfig) (t₀ : ℕ) (heard : List (ℕ × Verdict)) : ℕ :=
  heard.foldl (fun good a => if isGood cfg a.2 then a.1 else good) t₀

/-- The answers that end a session, and how, where the last good one was at `good`. -/
inductive EndsWith (cfg : WatchConfig) (good t : ℕ) : Verdict → GrantEnd → Prop where
  | revoked : EndsWith cfg good t (.ok .revoked) revokedEnd
  | notMember : EndsWith cfg good t (.ok .notMember) notMemberEnd
  | askerNotMember : EndsWith cfg good t (.ok .askerNotMember) askerEnd
  | unreadable (why : String) (h : good + cfg.grace ≤ t) :
    EndsWith cfg good t (.error (.unreadable why)) (silentEnd (t - good) why)
  | unsupported (hr : cfg.require = true) (h : good + cfg.grace ≤ t) :
    EndsWith cfg good t (.error .unsupported) (silentEnd (t - good) noEndpoint)

def Tolerated (cfg : WatchConfig) (t₀ : ℕ) (before : List (ℕ × Verdict)) (a : ℕ × Verdict) : Prop :=
  ∀ e, ¬ EndsWith cfg (lastGood cfg t₀ before) a.1 a.2 e

/-- The answers among the events, each with the time it arrived. -/
def heardIn (now : ℕ) : List Event → List (ℕ × Verdict)
  | [] => []
  | .pass d :: es => heardIn (now + d) es
  | .answered v :: es => (now, v) :: heardIn now es
  | .wake :: es => heardIn now es
  | .sessionOver :: es => heardIn now es

theorem lastGood_append (heard : List (ℕ × Verdict)) (t : ℕ) (v : Verdict) :
    lastGood cfg t₀ (heard ++ [(t, v)]) = if isGood cfg v then t else lastGood cfg t₀ heard := by
  rw [lastGood, List.foldl_append, List.foldl_cons, List.foldl_nil, lastGood]

theorem EndsWith.unique {good t : ℕ} {v : Verdict} {e e' : GrantEnd} (h : EndsWith cfg good t v e)
    (h' : EndsWith cfg good t v e') : e = e' := by
  cases h <;> cases h' <;> rfl

/-- An answer ends the session as it should, or starts the next sleep within the grace. -/
theorem hear_cases (w : Watch) (hle : w.lastValid ≤ w.now) (v : Verdict) :
    (∃ e, EndsWith cfg w.lastValid w.now v e ∧ hear cfg w v = { w with phase := .ended e } ∧
      isGood cfg v = false) ∨
    ((∀ e, ¬ EndsWith cfg w.lastValid w.now v e) ∧
      (hear cfg w v).now = w.now ∧ (hear cfg w v).phase = .sleeping (w.now + cfg.interval) ∧
      (hear cfg w v).lastValid = (if isGood cfg v then w.now else w.lastValid) ∧
      w.now ≤ (hear cfg w v).lastValid + cfg.grace) := by
  have hsilent (why : String) (hs : strict cfg v = .error (.unreadable why))
      (hg : isGood cfg v = false) (hends : ∀ e, EndsWith cfg w.lastValid w.now v e ↔
        w.lastValid + cfg.grace ≤ w.now ∧ e = silentEnd (w.now - w.lastValid) why) :
      (∃ e, EndsWith cfg w.lastValid w.now v e ∧ hear cfg w v = { w with phase := .ended e } ∧
        isGood cfg v = false) ∨
      ((∀ e, ¬ EndsWith cfg w.lastValid w.now v e) ∧
        (hear cfg w v).now = w.now ∧ (hear cfg w v).phase = .sleeping (w.now + cfg.interval) ∧
        (hear cfg w v).lastValid = (if isGood cfg v then w.now else w.lastValid) ∧
        w.now ≤ (hear cfg w v).lastValid + cfg.grace) := by
    by_cases hgrace : w.now - w.lastValid < cfg.grace
    · right
      have hh : hear cfg w v = { w with
          log := w.log ++ [unreadableLine cfg (w.now - w.lastValid) why]
          phase := .sleeping (w.now + cfg.interval) } := by
        simp only [hear, hs, if_pos hgrace]
      rw [hh, hg]
      refine ⟨?_, rfl, rfl, rfl, ?_⟩
      · intro e he
        have hlate := ((hends e).mp he).1
        omega
      · change w.now ≤ w.lastValid + cfg.grace
        omega
    · left
      have hlate : w.lastValid + cfg.grace ≤ w.now := by omega
      refine ⟨silentEnd (w.now - w.lastValid) why, (hends _).mpr ⟨hlate, rfl⟩, ?_, hg⟩
      simp only [hear, hs, if_neg hgrace]
  match v with
  | .ok .valid =>
    refine .inr ⟨fun e he => ?_, rfl, rfl, rfl, Nat.le_add_right w.now _⟩
    cases he
  | .ok .revoked => exact .inl ⟨_, .revoked, rfl, rfl⟩
  | .ok .notMember => exact .inl ⟨_, .notMember, rfl, rfl⟩
  | .ok .askerNotMember => exact .inl ⟨_, .askerNotMember, rfl, rfl⟩
  | .error (.unreadable why) =>
    apply hsilent why rfl rfl
    intro e
    constructor
    · rintro ⟨⟩
      exact ⟨by assumption, rfl⟩
    · rintro ⟨hlate, rfl⟩
      exact .unreadable why hlate
  | .error .unsupported =>
    by_cases hr : cfg.require = true
    · apply hsilent noEndpoint (by rw [strict, if_pos hr]) (by rw [isGood, hr]; rfl)
      intro e
      constructor
      · rintro ⟨⟩
        exact ⟨by assumption, rfl⟩
      · rintro ⟨hlate, rfl⟩
        exact .unsupported hr hlate
    · -- the control plane answered: the clock of the grace starts anew
      have hs : strict cfg (.error .unsupported) = .error .unsupported := by
        rw [strict, if_neg hr]
      have hg : isGood cfg (.error .unsupported) = true := by
        rw [isGood, Bool.eq_false_of_not_eq_true hr]
        rfl
      right
      simp only [hear, hs, hg, if_true, true_and]
      refine ⟨fun e he => ?_, Nat.le_add_right w.now _⟩
      cases he
      exact absurd (by assumption) hr

/-- Where the loop stands, against the answers it has heard. -/
def Standing (cfg : WatchConfig) (t₀ : ℕ) (heard : List (ℕ × Verdict)) (w : Watch) : Prop :=
  match w.phase with
  | .sleeping until_ => EachAfter (Tolerated cfg t₀) heard ∧ w.now ≤ until_ ∧
    until_ ≤ w.lastValid + cfg.grace + cfg.interval
  | .asking since => EachAfter (Tolerated cfg t₀) heard ∧ since ≤ w.now ∧
    since ≤ w.lastValid + cfg.grace + cfg.interval
  | .closed => EachAfter (Tolerated cfg t₀) heard
  | .ended e => ∃ pre t v, heard = pre ++ [(t, v)] ∧ EachAfter (Tolerated cfg t₀) pre ∧
    EndsWith cfg (lastGood cfg t₀ pre) t v e

structure Inv (cfg : WatchConfig) (t₀ : ℕ) (heard : List (ℕ × Verdict)) (w : Watch) : Prop where
  good : w.lastValid = lastGood cfg t₀ heard
  good_le : w.lastValid ≤ w.now
  standing : Standing cfg t₀ heard w

theorem Inv.start : Inv cfg t₀ [] (start t₀) := by
  refine ⟨rfl, Nat.le_refl t₀, EachAfter.nil _, Nat.le_refl t₀, ?_⟩
  change t₀ ≤ t₀ + cfg.grace + cfg.interval
  omega

/-- Everything a step can be. -/
theorem step_cases {w w' : Watch} {e : Event} (h : step cfg w e = some w') :
    (∃ d, e = .pass d ∧ (∀ u, w.phase = .sleeping u → w.now + d ≤ u) ∧ w' = { w with now := w.now + d }) ∨
    (∃ u, e = .wake ∧ w.phase = .sleeping u ∧ u ≤ w.now ∧ w' = { w with phase := .asking w.now }) ∨
    (∃ v since, e = .answered v ∧ w.phase = .asking since ∧ w' = hear cfg w v) ∨
    (e = .sessionOver ∧ ((∃ u, w.phase = .sleeping u) ∨ ∃ since, w.phase = .asking since) ∧
      w' = { w with phase := .closed }) := by
  cases e with
  | pass d =>
    refine .inl ⟨d, rfl, ?_⟩
    unfold step at h
    cases hp : w.phase with
    | sleeping u =>
      simp only [hp] at h
      split at h
      · next hle =>
        refine ⟨fun u' hu' => ?_, (Option.some.inj h).symm⟩
        cases hu'
        exact hle
      · cases h
    | _ =>
      simp only [hp] at h
      exact ⟨by simp, (Option.some.inj h).symm⟩
  | wake =>
    refine .inr (.inl ?_)
    unfold step at h
    cases hp : w.phase with
    | sleeping u =>
      simp only [hp] at h
      split at h
      · next hle => exact ⟨u, rfl, rfl, hle, (Option.some.inj h).symm⟩
      · cases h
    | _ =>
      simp only [hp] at h
      cases h
  | answered v =>
    refine .inr (.inr (.inl ?_))
    unfold step at h
    cases hp : w.phase with
    | asking since =>
      simp only [hp] at h
      exact ⟨v, since, rfl, rfl, (Option.some.inj h).symm⟩
    | _ =>
      simp only [hp] at h
      cases h
  | sessionOver =>
    refine .inr (.inr (.inr ⟨rfl, ?_⟩))
    unfold step at h
    cases hp : w.phase with
    | sleeping u =>
      simp only [hp] at h
      exact ⟨.inl ⟨u, rfl⟩, (Option.some.inj h).symm⟩
    | asking since =>
      simp only [hp] at h
      exact ⟨.inr ⟨since, rfl⟩, (Option.some.inj h).symm⟩
    | _ =>
      simp only [hp] at h
      cases h

/-- What a step adds to the answers heard. -/
def heardAt (now : ℕ) : Event → List (ℕ × Verdict)
  | .answered v => [(now, v)]
  | .pass _ => []
  | .wake => []
  | .sessionOver => []

theorem hear_now (w : Watch) (v : Verdict) : (hear cfg w v).now = w.now := by
  unfold hear
  split
  · rfl
  · rfl
  · rfl
  · rfl
  · rfl
  · split <;> rfl

theorem heardIn_cons {w w' : Watch} {e : Event} (h : step cfg w e = some w') (es : List Event) :
    heardIn w.now (e :: es) = heardAt w.now e ++ heardIn w'.now es := by
  obtain ⟨d, rfl, -, rfl⟩ | ⟨u, rfl, -, -, rfl⟩ | ⟨v, since, rfl, -, rfl⟩ | ⟨rfl, -, rfl⟩ := step_cases h
  · rfl
  · rfl
  · rw [heardIn, hear_now]
    rfl
  · rfl

theorem Inv.step {heard : List (ℕ × Verdict)} {w w' : Watch} {e : Event} (h : Inv cfg t₀ heard w)
    (hs : step cfg w e = some w') : Inv cfg t₀ (heard ++ heardAt w.now e) w' := by
  have hgood := h.good
  have hle := h.good_le
  have hst := h.standing
  obtain ⟨d, rfl, hsleep, rfl⟩ | ⟨u, rfl, hp, hu, rfl⟩ | ⟨v, since, rfl, hp, rfl⟩ | ⟨rfl, hp, rfl⟩ :=
    step_cases hs
  · rw [heardAt, List.append_nil]
    refine ⟨hgood, Nat.le_add_right_of_le hle, ?_⟩
    unfold Standing at hst ⊢
    cases hp : w.phase with
    | sleeping u =>
      simp only [hp] at hst ⊢
      exact ⟨hst.1, hsleep u hp, hst.2.2⟩
    | asking since =>
      simp only [hp] at hst ⊢
      exact ⟨hst.1, Nat.le_add_right_of_le hst.2.1, hst.2.2⟩
    | closed =>
      simp only [hp] at hst ⊢
      exact hst
    | ended e =>
      simp only [hp] at hst ⊢
      exact hst
  · rw [heardAt, List.append_nil]
    simp only [Standing, hp] at hst
    refine ⟨hgood, hle, hst.1, Nat.le_refl w.now, ?_⟩
    exact hst.2.1.trans hst.2.2
  · -- what is heard is judged by the answers in front of it
    simp only [Standing, hp] at hst
    rcases @hear_cases cfg w hle v with ⟨e, hends, hw, hnot⟩ | ⟨hnone, hnow, hph, hlast, hgrace⟩
    · have hkeep : lastGood cfg t₀ (heard ++ [(w.now, v)]) = lastGood cfg t₀ heard := by
        rw [lastGood_append, hnot]
        rfl
      rw [hw]
      refine ⟨hgood.trans hkeep.symm, hle, heard, w.now, v, rfl, hst.1, ?_⟩
      rwa [← hgood]
    · have hnew : (hear cfg w v).lastValid = lastGood cfg t₀ (heard ++ [(w.now, v)]) := by
        rw [hlast, lastGood_append, hgood]
      refine ⟨hnew, ?_, ?_⟩
      · rw [hlast, hnow]
        split
        · exact Nat.le_refl w.now
        · exact hle
      · simp only [Standing, hph]
        refine ⟨hst.1.append ?_, ?_, ?_⟩
        · intro e
          rw [← hgood]
          exact hnone e
        · rw [hnow]
          exact Nat.le_add_right w.now cfg.interval
        · omega
  · rw [heardAt, List.append_nil]
    refine ⟨hgood, hle, ?_⟩
    unfold Standing at hst ⊢
    rcases hp with ⟨u, hp⟩ | ⟨since, hp⟩
    · simp only [hp] at hst
      exact hst.1
    · simp only [hp] at hst
      exact hst.1

theorem Inv.run {heard : List (ℕ × Verdict)} {w w' : Watch} {es : List Event} (h : Inv cfg t₀ heard w)
    (hr : run (GrantWatch.step cfg) w es = some w') : Inv cfg t₀ (heard ++ heardIn w.now es) w' := by
  induction es generalizing heard w with
  | nil =>
    cases hr
    rwa [heardIn, List.append_nil]
  | cons e es ih =>
    obtain ⟨u, hu, hr⟩ := (run_cons _ w w' e es).mp hr
    have hrest := ih (h.step hu) hr
    rwa [heardIn_cons hu, ← List.append_assoc]

/-- One warning a session, however many answers say the endpoint is not there. -/
def WarnedOnce (w : Watch) : Prop := w.notices = if w.warned then [unsupportedWarning] else []

theorem hear_warnedOnce {w : Watch} (h : WarnedOnce w) (v : Verdict) : WarnedOnce (hear cfg w v) := by
  unfold WarnedOnce at h ⊢
  unfold hear
  split
  · exact h
  · exact h
  · exact h
  · exact h
  · change (if w.warned then w.notices else w.notices ++ [unsupportedWarning]) = [unsupportedWarning]
    rw [h]
    split <;> rfl
  · split
    · exact h
    · exact h

theorem run_warnedOnce {es : List Event} {w : Watch} (h : run (step cfg) (start t₀) es = some w) :
    WarnedOnce w := by
  refine run_invariant (step cfg) WarnedOnce ?_ es (start t₀) w rfl h
  intro w e w' hw hs
  obtain ⟨d, -, -, rfl⟩ | ⟨u, -, -, -, rfl⟩ | ⟨v, since, -, -, rfl⟩ | ⟨-, -, rfl⟩ := step_cases hs
  · exact hw
  · exact hw
  · exact hear_warnedOnce hw v
  · exact hw

end

end CtAgent.Channel.GrantWatch
