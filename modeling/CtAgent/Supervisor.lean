import CtAgent.Lib.Run
import CtAgent.Lib.Substring

/-! The supervision loop of `ct-agent-supervisor`: its selects, its child and the stop signals. A signal
listener is made when a select first polls `shutdown_requested`, and goes with that select. -/
namespace CtAgent.Supervisor
open CtAgent.Lib

structure ExitStatus where
  signal : Option ℤ
  code : Option ℤ
  deriving DecidableEq, Repr

inductive CrashReason where
  | signal (n : ℤ)
  | panic (line : String)
  | cleanExit (code : ℤ)
  | cleanExitOk
  | grantEnded
  deriving DecidableEq, Repr

def ownGrantEndedExit : ℤ := 77

/-- The longest beginning of at most `max` bytes that ends between two characters. -/
def truncateBytes (max : ℕ) : List Char → List Char
  | [] => []
  | c :: cs => if c.utf8Size ≤ max then c :: truncateBytes (max - c.utf8Size) cs else []

def classifyExit (status : ExitStatus) (stderrRing : List String) : CrashReason :=
  match status.signal with
  | some sig => .signal sig
  | none =>
    let code := status.code.getD (-1)
    if code = 0 then .cleanExitOk
    -- the child chose this status itself, whatever an earlier line has quoted
    else if code = ownGrantEndedExit then .grantEnded
    else
      match stderrRing.reverse.find? (fun l => contains l "panicked at") with
      | some line => .panic (String.ofList (truncateBytes 300 line.toList))
      | none => .cleanExit code

def finalStatus (reason : CrashReason) : Option ℤ :=
  if reason = .grantEnded then some ownGrantEndedExit else none

inductive Child where
  | none
  | running
  | exited (status : ExitStatus)
  -- `child.wait()` has failed
  | lost
  deriving DecidableEq, Repr

inductive EndedBy where
  | stop
  | final (status : ℤ)
  -- the default action of a signal no handler was installed for
  | signal
  deriving DecidableEq, Repr

/-- Where the loop is. The listener of a select is none before its first poll, and then tells whether a
stop was delivered since. -/
inductive Phase where
  | starting
  | waiting (listener : Option Bool)
  | stopping
  | draining (status : ExitStatus)
  | backingOff (due : Bool) (listener : Option Bool)
  | ended (by_ : EndedBy)
  deriving DecidableEq, Repr

/-- `requested`: a stop was delivered after the handlers were installed; `spawnedAfter` counts the
children spawned since. -/
structure Loop where
  phase : Phase
  child : Child
  termSent : Bool
  installed : Bool
  requested : Bool
  spawnedAfter : ℕ
  deriving DecidableEq, Repr

def Loop.init : Loop := ⟨.starting, .none, false, false, false, 0⟩

/-- `poll` is one that finds nothing ready; `stopPolled` says whether the select came to the stop branch
before the branch that won. -/
inductive Event where
  | spawn (ok : Bool)
  | poll
  | exitWins (stopPolled : Bool)
  | timerWins (stopPolled : Bool)
  | stopWins
  | childExits (status : Option ExitStatus)
  | drained (ring : List String)
  | timerDue
  | graceEnds
  | deliver
  deriving DecidableEq, Repr

/-- A listener sees what is delivered while it is there. -/
def Phase.deliver : Phase → Phase
  | .waiting listener => .waiting (listener.map (fun _ => true))
  | .backingOff due listener => .backingOff due (listener.map (fun _ => true))
  | p => p

def afterExit : Option ExitStatus → Child
  | some status => .exited status
  | none => .lost

/-- `run_once` and what `main` makes of its end. -/
def step (s : Loop) (e : Event) : Option Loop :=
  match e, s.phase with
  | .spawn true, .starting =>
    some { s with phase := .waiting none, child := .running, termSent := false,
                  spawnedAfter := if s.requested then s.spawnedAfter + 1 else s.spawnedAfter }
  | .spawn false, .starting => some { s with phase := .backingOff false none }
  | .poll, .waiting listener =>
    if s.child = .running ∧ listener ≠ some true then
      some { s with phase := .waiting (some false), installed := true }
    else none
  | .childExits status, .waiting listener =>
    if s.child = .running then some { s with phase := .waiting listener, child := afterExit status } else none
  | .exitWins stopPolled, .waiting listener =>
    -- a stop that is ready wins where it is polled first
    if stopPolled ∧ listener = some true then none
    else
      match s.child with
      | .exited status => some { s with phase := .draining status, installed := s.installed || stopPolled }
      | .lost => some { s with phase := .backingOff false none, installed := s.installed || stopPolled }
      | _ => none
  | .stopWins, .waiting (some true) => some { s with phase := .stopping, termSent := true }
  | .childExits status, .stopping =>
    if s.child = .running then some { s with child := afterExit status } else none
  | .graceEnds, .stopping => some { s with phase := .ended .stop }
  -- the stderr pump has ended or its two seconds are over, and the status is classified
  | .drained ring, .draining status =>
    match finalStatus (classifyExit status ring) with
    | some n => some { s with phase := .ended (.final n) }
    | none => some { s with phase := .backingOff false none }
  | .timerDue, .backingOff false listener => some { s with phase := .backingOff true listener }
  | .poll, .backingOff false listener =>
    if listener ≠ some true then some { s with phase := .backingOff false (some false), installed := true }
    else none
  | .timerWins stopPolled, .backingOff true listener =>
    if stopPolled ∧ listener = some true then none
    else some { s with phase := .starting, installed := s.installed || stopPolled }
  | .stopWins, .backingOff _ (some true) => some { s with phase := .ended .stop }
  | .deliver, .ended _ => some s
  | .deliver, p =>
    if s.installed then some { s with phase := p.deliver, requested := true }
    else some { s with phase := .ended .signal }
  | _, _ => none

/-- The child's status is the one the loop ends with. -/
def ExitStatus.isFinal (status : ExitStatus) : Bool :=
  status.signal == none && status.code == some ownGrantEndedExit

def Child.isFinal : Child → Bool
  | .exited status => status.isFinal
  | _ => false

/-- No stop is lost: each is delivered to a listener that is there, or to a loop that goes round no more,
and where it is pending no exit and no timer that leads round again is taken in its place. -/
def heeds (s : Loop) (e : Event) : Bool :=
  match e, s.phase with
  | .deliver, .waiting listener => !s.installed || listener.isSome || s.child.isFinal
  | .deliver, .backingOff _ listener => !s.installed || listener.isSome
  | .deliver, .draining status => !s.installed || status.isFinal
  | .deliver, .starting => !s.installed
  | .exitWins _, .waiting (some true) => s.child.isFinal
  | .timerWins _, .backingOff _ (some true) => false
  | _, _ => true

theorem finalStatus_classifyExit (status : ExitStatus) (ring : List String) :
    (finalStatus (classifyExit status ring)).isSome = status.isFinal := by
  obtain ⟨signal, code⟩ := status
  cases signal with
  | some n => rfl
  | none =>
    by_cases hcode : code.getD (-1) = ownGrantEndedExit
    · have hsome : code = some ownGrantEndedExit := by
        cases code with
        | none => exact absurd hcode (by decide)
        | some n => exact congrArg some hcode
      subst hsome
      rfl
    · have hnot : ExitStatus.isFinal ⟨none, code⟩ = false := by
        unfold ExitStatus.isFinal
        cases code with
        | none => rfl
        | some n =>
          have hn : n ≠ ownGrantEndedExit := hcode
          simp [hn]
      have hreason : classifyExit ⟨none, code⟩ ring ≠ .grantEnded := by
        unfold classifyExit
        dsimp only
        split_ifs
        · nofun
        · split <;> nofun
      rw [hnot, finalStatus, if_neg hreason]
      rfl

/-- What each step of the loop does. -/
inductive Move (s : Loop) : Event → Loop → Prop
  | spawned (hp : s.phase = .starting) :
      Move s (.spawn true)
        { s with phase := .waiting none, child := .running, termSent := false,
                 spawnedAfter := if s.requested then s.spawnedAfter + 1 else s.spawnedAfter }
  | spawnFailed (hp : s.phase = .starting) : Move s (.spawn false) { s with phase := .backingOff false none }
  | polled {listener} (hp : s.phase = .waiting listener) (hc : s.child = .running)
    (hl : listener ≠ some true) :
      Move s .poll { s with phase := .waiting (some false), installed := true }
  | exited {listener} (status) (hp : s.phase = .waiting listener) (hc : s.child = .running) :
      Move s (.childExits status) { s with phase := .waiting listener, child := afterExit status }
  | reaped {listener status} (stopPolled) (hp : s.phase = .waiting listener) (hc : s.child = .exited status) :
      Move s (.exitWins stopPolled)
        { s with phase := .draining status, installed := s.installed || stopPolled }
  | waitFailed {listener} (stopPolled) (hp : s.phase = .waiting listener) (hc : s.child = .lost) :
      Move s (.exitWins stopPolled)
        { s with phase := .backingOff false none, installed := s.installed || stopPolled }
  | stopTaken (hp : s.phase = .waiting (some true)) :
      Move s .stopWins { s with phase := .stopping, termSent := true }
  | exitedStopping (status) (hp : s.phase = .stopping) (hc : s.child = .running) :
      Move s (.childExits status) { s with child := afterExit status }
  | graceOver (hp : s.phase = .stopping) : Move s .graceEnds { s with phase := .ended .stop }
  | final {status n} (ring) (hp : s.phase = .draining status) (hf : status.isFinal = true) :
      Move s (.drained ring) { s with phase := .ended (.final n) }
  | again {status} (ring) (hp : s.phase = .draining status) (hf : status.isFinal = false) :
      Move s (.drained ring) { s with phase := .backingOff false none }
  | due {listener} (hp : s.phase = .backingOff false listener) :
      Move s .timerDue { s with phase := .backingOff true listener }
  | polledBackingOff {listener} (hp : s.phase = .backingOff false listener) (hl : listener ≠ some true) :
      Move s .poll { s with phase := .backingOff false (some false), installed := true }
  | timerTaken {listener} (stopPolled) (hp : s.phase = .backingOff true listener) :
      Move s (.timerWins stopPolled) { s with phase := .starting, installed := s.installed || stopPolled }
  | stopTakenBackingOff {due} (hp : s.phase = .backingOff due (some true)) :
      Move s .stopWins { s with phase := .ended .stop }
  | deliveredEnded {by_} (hp : s.phase = .ended by_) : Move s .deliver s
  | delivered (hp : ∀ by_, s.phase ≠ .ended by_) (hi : s.installed = true) :
      Move s .deliver { s with phase := s.phase.deliver, requested := true }
  | killed (hp : ∀ by_, s.phase ≠ .ended by_) (hi : s.installed = false) :
      Move s .deliver { s with phase := .ended .signal }

theorem step_deliver {s : Loop} (hp : ∀ by_, s.phase ≠ .ended by_) :
    step s .deliver = if s.installed then some { s with phase := s.phase.deliver, requested := true }
      else some { s with phase := .ended .signal } := by
  unfold step
  split <;> simp_all

theorem move_deliver {s t : Loop} (h : step s .deliver = some t) : Move s .deliver t := by
  by_cases hended : ∃ by_, s.phase = .ended by_
  · obtain ⟨by_, hp⟩ := hended
    have hst : s = t := by
      unfold step at h
      simp only [hp] at h
      exact Option.some.inj h
    exact hst ▸ Move.deliveredEnded hp
  · have hp : ∀ by_, s.phase ≠ .ended by_ := by
      intro by_ hp
      exact hended ⟨by_, hp⟩
    rw [step_deliver hp] at h
    by_cases hi : s.installed = true
    · rw [if_pos hi] at h
      exact Option.some.inj h ▸ Move.delivered hp hi
    · rw [if_neg hi] at h
      exact Option.some.inj h ▸ Move.killed hp (by simpa using hi)

theorem step_drained {s : Loop} {status : ExitStatus} (hp : s.phase = .draining status) (ring : List String) :
    step s (.drained ring) =
      match finalStatus (classifyExit status ring) with
      | some n => some { s with phase := .ended (.final n) }
      | none => some { s with phase := .backingOff false none } := by
  unfold step
  simp only [hp]

theorem move_drained {s t : Loop} {ring : List String} {status : ExitStatus} (hp : s.phase = .draining status)
    (h : step s (.drained ring) = some t) : Move s (.drained ring) t := by
  have hsome : (finalStatus (classifyExit status ring)).isSome = status.isFinal :=
    finalStatus_classifyExit status ring
  rw [step_drained hp] at h
  split at h
  · rename_i n hn
    rw [hn] at hsome
    exact Option.some.inj h ▸ Move.final ring hp hsome.symm
  · rename_i hn
    rw [hn] at hsome
    exact Option.some.inj h ▸ Move.again ring hp hsome.symm

theorem move_of_step {s t : Loop} {e : Event} (h : step s e = some t) : Move s e t := by
  have heq := h
  unfold step at heq
  cases e with
  | deliver => exact move_deliver h
  | drained ring =>
    cases hp : s.phase with
    | draining status => exact move_drained hp h
    | _ => simp [hp] at heq
  | spawn ok =>
    cases hp : s.phase with
    | starting =>
      cases ok with
      | true =>
        simp only [hp] at heq
        exact Option.some.inj heq ▸ Move.spawned hp
      | false =>
        simp only [hp] at heq
        exact Option.some.inj heq ▸ Move.spawnFailed hp
    | _ => cases ok <;> simp [hp] at heq
  | poll =>
    cases hp : s.phase with
    | waiting listener =>
      simp only [hp] at heq
      split at heq
      · rename_i hready
        exact Option.some.inj heq ▸ Move.polled hp hready.1 hready.2
      · exact absurd heq (by simp)
    | backingOff due listener =>
      cases due with
      | false =>
        simp only [hp] at heq
        split at heq
        · rename_i hl
          exact Option.some.inj heq ▸ Move.polledBackingOff hp hl
        · exact absurd heq (by simp)
      | true => simp [hp] at heq
    | _ => simp [hp] at heq
  | exitWins stopPolled =>
    cases hp : s.phase with
    | waiting listener =>
      simp only [hp] at heq
      split at heq
      · exact absurd heq (by simp)
      · cases hc : s.child with
        | exited status =>
          simp only [hc] at heq
          exact Option.some.inj heq ▸ hc ▸ Move.reaped stopPolled hp hc
        | lost =>
          simp only [hc] at heq
          exact Option.some.inj heq ▸ hc ▸ Move.waitFailed stopPolled hp hc
        | _ => simp [hc] at heq
    | _ => simp [hp] at heq
  | timerWins stopPolled =>
    cases hp : s.phase with
    | backingOff due listener =>
      cases due with
      | true =>
        simp only [hp] at heq
        split at heq
        · exact absurd heq (by simp)
        · exact Option.some.inj heq ▸ Move.timerTaken stopPolled hp
      | false => simp [hp] at heq
    | _ => simp [hp] at heq
  | stopWins =>
    cases hp : s.phase with
    | waiting listener =>
      cases listener with
      | none => simp [hp] at heq
      | some pending =>
        cases pending with
        | false => simp [hp] at heq
        | true =>
          simp only [hp] at heq
          exact Option.some.inj heq ▸ Move.stopTaken hp
    | backingOff due listener =>
      cases listener with
      | none => simp [hp] at heq
      | some pending =>
        cases pending with
        | false => simp [hp] at heq
        | true =>
          simp only [hp] at heq
          exact Option.some.inj heq ▸ Move.stopTakenBackingOff hp
    | _ => simp [hp] at heq
  | childExits status =>
    cases hp : s.phase with
    | waiting listener =>
      simp only [hp] at heq
      split at heq
      · rename_i hc
        exact Option.some.inj heq ▸ Move.exited status hp hc
      · exact absurd heq (by simp)
    | stopping =>
      simp only [hp] at heq
      split at heq
      · rename_i hc
        have hmove := Move.exitedStopping status hp hc
        exact Option.some.inj heq ▸ hp ▸ hmove
      · exact absurd heq (by simp)
    | _ => simp [hp] at heq
  | timerDue =>
    cases hp : s.phase with
    | backingOff due listener =>
      cases due with
      | false =>
        simp only [hp] at heq
        exact Option.some.inj heq ▸ Move.due hp
      | true => simp [hp] at heq
    | _ => simp [hp] at heq
  | graceEnds =>
    cases hp : s.phase with
    | stopping =>
      simp only [hp] at heq
      exact Option.some.inj heq ▸ Move.graceOver hp
    | _ => simp [hp] at heq

/-- The events whose move says all there is to the step: no stop is polled first, and no status is read. -/
def Event.plain : Event → Bool
  | .exitWins stopPolled | .timerWins stopPolled => !stopPolled
  | .drained _ => false
  | _ => true

theorem step_of_move {s t : Loop} {e : Event} (h : Move s e t) (hplain : e.plain = true) :
    step s e = some t := by
  unfold step
  cases h with
  | spawned hp => simp only [hp]
  | spawnFailed hp => simp only [hp]
  | polled hp hc hl => simp [hp, hc, hl]
  | exited status hp hc => simp [hp, hc]
  | reaped stopPolled hp hc =>
    have hnot : stopPolled = false := by simpa [Event.plain] using hplain
    simp [hp, hc, hnot]
  | waitFailed stopPolled hp hc =>
    have hnot : stopPolled = false := by simpa [Event.plain] using hplain
    simp [hp, hc, hnot]
  | stopTaken hp => simp only [hp]
  | exitedStopping status hp hc => simp [hp, hc]
  | graceOver hp => simp only [hp]
  | final ring hp hf => exact absurd hplain nofun
  | again ring hp hf => exact absurd hplain nofun
  | due hp => simp only [hp]
  | polledBackingOff hp hl => simp [hp, hl]
  | timerTaken stopPolled hp =>
    have hnot : stopPolled = false := by simpa [Event.plain] using hplain
    simp [hp, hnot]
  | stopTakenBackingOff hp => simp only [hp]
  | deliveredEnded hp => simp only [hp]
  | delivered hp hi => exact (step_deliver hp).trans (if_pos hi)
  | killed hp hi => exact (step_deliver hp).trans (if_neg (by simp [hi]))

def Loop.Sound (s : Loop) : Prop :=
  (s.requested = true → s.installed = true) ∧
    match s.phase with
    | .waiting listener => s.child ≠ .none ∧ (listener = some true → s.requested = true)
    | .backingOff _ listener => s.child ≠ .running ∧ (listener = some true → s.requested = true)
    | .starting | .draining _ | .ended (.final _) => s.child ≠ .running
    | .stopping => s.termSent = true
    | .ended .stop => s.termSent = true ∨ s.child ≠ .running
    | .ended .signal => s.requested = false

theorem afterExit_ne_running (status : Option ExitStatus) : afterExit status ≠ .running := by
  cases status <;> nofun

theorem afterExit_ne_none (status : Option ExitStatus) : afterExit status ≠ .none := by
  cases status <;> nofun

theorem Move.sound {s t : Loop} {e : Event} (h : Move s e t) (hs : s.Sound) : t.Sound := by
  obtain ⟨hreq, hphase⟩ := hs
  cases h with
  | spawned hp => exact ⟨hreq, by simp⟩
  | spawnFailed hp => exact ⟨hreq, by simpa [hp] using hphase⟩
  | polled hp hc hl => exact ⟨fun _ => rfl, by simp [hc]⟩
  | exited status hp hc =>
    have hlistener := by simpa only [hp] using hphase
    exact ⟨hreq, afterExit_ne_none status, hlistener.2⟩
  | reaped stopPolled hp hc => exact ⟨fun hr => by simp [hreq hr], by simp [hc]⟩
  | waitFailed stopPolled hp hc => exact ⟨fun hr => by simp [hreq hr], by simp [hc]⟩
  | stopTaken hp => exact ⟨hreq, rfl⟩
  | exitedStopping status hp hc => exact ⟨hreq, by simpa only [hp] using hphase⟩
  | graceOver hp => exact ⟨hreq, Or.inl (by simpa only [hp] using hphase)⟩
  | final ring hp hf => exact ⟨hreq, by simpa only [hp] using hphase⟩
  | again ring hp hf => exact ⟨hreq, by simpa [hp] using hphase⟩
  | due hp => exact ⟨hreq, by simpa only [hp] using hphase⟩
  | polledBackingOff hp hl =>
    have hchild := by simpa only [hp] using hphase
    exact ⟨fun _ => rfl, hchild.1, by simp⟩
  | timerTaken stopPolled hp =>
    have hchild := by simpa only [hp] using hphase
    exact ⟨fun hr => by simp [hreq hr], hchild.1⟩
  | stopTakenBackingOff hp =>
    have hchild := by simpa only [hp] using hphase
    exact ⟨hreq, Or.inr hchild.1⟩
  | deliveredEnded hp => exact ⟨hreq, hphase⟩
  | delivered hp hi =>
    refine ⟨fun _ => hi, ?_⟩
    cases hphase' : s.phase with
    | ended by_ => exact absurd hphase' (hp by_)
    | _ =>
      rw [hphase'] at hphase
      simp_all [Phase.deliver]
  | killed hp hi =>
    refine ⟨hreq, ?_⟩
    cases hr : s.requested with
    | false => rfl
    | true => exact absurd (hreq hr) (by simp [hi])

theorem sound_step (s : Loop) (e : Event) (t : Loop) (hs : s.Sound) (h : step s e = some t) : t.Sound :=
  (move_of_step h).sound hs

/-- The stop is pending where the next select takes it, or the loop goes round no more. -/
def Loop.Caught (s : Loop) : Prop :=
  match s.phase with
  | .waiting listener => listener = some true ∨ s.child.isFinal = true
  | .backingOff _ listener => listener = some true
  | .draining status => status.isFinal = true
  | .stopping | .ended _ => True
  | .starting => False

/-- Nothing was spawned since the stop, and the stop is caught. -/
def Loop.Heeded (s : Loop) : Prop :=
  s.Sound ∧ s.spawnedAfter = 0 ∧ (s.requested = true → s.Caught)

theorem Move.caught {s t : Loop} {e : Event} (h : Move s e t) (hok : heeds s e = true) (hs : s.Caught) :
    t.Caught := by
  cases h with
  | spawned hp => simp [Loop.Caught, hp] at hs
  | spawnFailed hp => simp [Loop.Caught, hp] at hs
  | polled hp hc hl =>
    simp only [Loop.Caught, hp, hc, Child.isFinal] at hs
    exact absurd (hs.resolve_right (by decide)) hl
  | exited status hp hc =>
    simp only [Loop.Caught, hp, hc, Child.isFinal] at hs
    exact Or.inl (hs.resolve_right (by decide))
  | @reaped _ status stopPolled hp hc =>
    simp only [Loop.Caught, hp, hc] at hs
    rcases hs with hpending | hfinal
    · have hfinal : (Child.exited status).isFinal = true := by simpa only [heeds, hp, hpending, hc] using hok
      exact hfinal
    · exact hfinal
  | waitFailed stopPolled hp hc =>
    simp only [Loop.Caught, hp, hc, Child.isFinal] at hs
    have hpending := hs.resolve_right (by decide)
    simp [heeds, hp, hpending, hc, Child.isFinal] at hok
  | stopTaken hp => trivial
  | exitedStopping status hp hc => simp only [Loop.Caught, hp]
  | graceOver hp => trivial
  | final ring hp hf => trivial
  | again ring hp hf => simp [Loop.Caught, hp, hf] at hs
  | due hp => simpa only [Loop.Caught, hp] using hs
  | polledBackingOff hp hl =>
    simp only [Loop.Caught, hp] at hs
    exact absurd hs hl
  | timerTaken stopPolled hp =>
    simp only [Loop.Caught, hp] at hs
    simp [heeds, hp, hs] at hok
  | stopTakenBackingOff hp => trivial
  | deliveredEnded hp => exact hs
  | delivered hp hi =>
    cases hphase : s.phase with
    | waiting listener =>
      simp only [Loop.Caught, hphase] at hs
      rcases hs with hpending | hfinal
      · exact Or.inl (by rw [hpending]; rfl)
      · exact Or.inr hfinal
    | backingOff due listener =>
      simp only [Loop.Caught, hphase] at hs
      simp [Loop.Caught, Phase.deliver, hs]
    | _ => simp_all [Loop.Caught, Phase.deliver]
  | killed hp hi => trivial

/-- A stop is caught where it is delivered. -/
theorem caught_of_delivered {s : Loop} (hok : heeds s .deliver = true) (hi : s.installed = true) :
    Loop.Caught { s with phase := s.phase.deliver, requested := true } := by
  cases hphase : s.phase with
  | waiting listener =>
    cases listener <;> simp_all [heeds, Loop.Caught, Phase.deliver]
  | backingOff due listener =>
    cases listener <;> simp_all [heeds, Loop.Caught, Phase.deliver]
  | _ => simp_all [heeds, Loop.Caught, Phase.deliver]

/-- A request is new only where a stop is delivered. -/
theorem Move.request {s t : Loop} {e : Event} (h : Move s e t) (hreq : t.requested = true) :
    s.requested = true ∨
      (e = .deliver ∧ s.installed = true ∧ t = { s with phase := s.phase.deliver, requested := true }) := by
  cases h with
  | delivered hp hi => exact Or.inr ⟨rfl, hi, rfl⟩
  | _ => exact Or.inl hreq

theorem Move.spawnedAfter {s t : Loop} {e : Event} (h : Move s e t) (hs : s.requested = true → s.Caught) :
    t.spawnedAfter = s.spawnedAfter := by
  cases h with
  | spawned hp =>
    cases hr : s.requested with
    | false => rfl
    | true =>
      have hcaught := hs hr
      simp [Loop.Caught, hp] at hcaught
  | _ => rfl

theorem heeded_step (s : Loop) (e : Event) (t : Loop) (hs : s.Heeded) (h : guarded step heeds s e = some t) :
    t.Heeded := by
  obtain ⟨hsound, hnone, hcaught⟩ := hs
  obtain ⟨hok, hstep⟩ := guarded_eq_some.mp h
  have hmove := move_of_step hstep
  refine ⟨hmove.sound hsound, (hmove.spawnedAfter hcaught).trans hnone, fun hreq => ?_⟩
  rcases hmove.request hreq with hr | ⟨he, hi, ht⟩
  · exact hmove.caught hok (hcaught hr)
  · subst he ht
    exact caught_of_delivered hok hi

theorem sound_init : Loop.init.Sound := by
  simp [Loop.Sound, Loop.init]

theorem heeded_init : Loop.init.Heeded :=
  ⟨sound_init, rfl, nofun⟩

/-- How many events but deliveries a loop with a caught stop has before it. -/
def Loop.rank (s : Loop) : ℕ :=
  match s.phase with
  | .waiting _ => if s.child = .running then 4 else 3
  | .stopping => if s.child = .running then 2 else 1
  | .draining _ => 1
  | .backingOff due _ => if due then 1 else 2
  | .ended _ => 0
  | .starting => 0

theorem Loop.rank_le (s : Loop) : s.rank ≤ 4 := by
  unfold Loop.rank
  cases s.phase <;> grind

def Event.isOwn (e : Event) : Bool := e ≠ .deliver

theorem Move.rank_lt {s t : Loop} {e : Event} (h : Move s e t) (hok : heeds s e = true) (hs : s.Caught) :
    (if e.isOwn then 1 else 0) + t.rank ≤ s.rank := by
  cases h with
  | spawned hp => simp [Loop.Caught, hp] at hs
  | spawnFailed hp => simp [Loop.Caught, hp] at hs
  | polled hp hc hl =>
    simp only [Loop.Caught, hp, hc, Child.isFinal] at hs
    exact absurd (hs.resolve_right (by decide)) hl
  | exited status hp hc => simp [Loop.rank, hp, hc, Event.isOwn, afterExit_ne_running]
  | reaped stopPolled hp hc => simp [Loop.rank, hp, hc, Event.isOwn]
  | waitFailed stopPolled hp hc => simp [Loop.rank, hp, hc, Event.isOwn]
  | stopTaken hp =>
    simp only [Loop.rank, hp, Event.isOwn]
    grind
  | exitedStopping status hp hc => simp [Loop.rank, hp, hc, Event.isOwn, afterExit_ne_running]
  | graceOver hp =>
    simp only [Loop.rank, hp, Event.isOwn]
    grind
  | final ring hp hf => simp [Loop.rank, hp, Event.isOwn]
  | again ring hp hf => simp [Loop.Caught, hp, hf] at hs
  | due hp => simp [Loop.rank, hp, Event.isOwn]
  | polledBackingOff hp hl =>
    simp only [Loop.Caught, hp] at hs
    exact absurd hs hl
  | timerTaken stopPolled hp =>
    simp only [Loop.Caught, hp] at hs
    simp [heeds, hp, hs] at hok
  | @stopTakenBackingOff due hp =>
    simp only [Loop.rank, hp, Event.isOwn]
    cases due <;> simp
  | deliveredEnded hp => simp [Event.isOwn]
  | delivered hp hi =>
    cases hphase : s.phase <;> simp [Loop.rank, Phase.deliver, Event.isOwn, hphase]
  | killed hp hi => simp [Loop.rank, Event.isOwn]

/-- A caught stop leaves the loop a step of its own until it has ended. -/
theorem ended_of_stuck {s : Loop} (hs : s.Caught)
    (hstuck : ∀ e : Event, e.isOwn = true → guarded step heeds s e = none) :
    ∃ by_, s.phase = .ended by_ := by
  by_contra hgoes
  have hadmits : ∃ e, Event.isOwn e = true ∧ heeds s e = true ∧ (step s e).isSome = true := by
    have hmoves {e : Event} {t : Loop} (h : Move s e t) (hplain : e.plain = true) :
      (step s e).isSome = true := by
      rw [step_of_move h hplain]
      rfl
    cases hphase : s.phase with
    | starting => simp [Loop.Caught, hphase] at hs
    | waiting listener =>
      simp only [Loop.Caught, hphase] at hs
      by_cases hpending : listener = some true
      · rw [hpending] at hphase
        exact ⟨.stopWins, by decide, by simp [heeds], hmoves (.stopTaken hphase) rfl⟩
      · have hfinal := hs.resolve_left hpending
        cases hc : s.child with
        | exited status =>
          refine ⟨.exitWins false, by decide, ?_, hmoves (.reaped false hphase hc) rfl⟩
          unfold heeds
          split <;> simp_all
        | _ => simp [hc, Child.isFinal] at hfinal
    | stopping => exact ⟨.graceEnds, by decide, by simp [heeds], hmoves (.graceOver hphase) rfl⟩
    | draining status =>
      refine ⟨.drained [], by decide, by simp [heeds], ?_⟩
      rw [step_drained hphase]
      cases finalStatus (classifyExit status []) <;> rfl
    | backingOff due listener =>
      simp only [Loop.Caught, hphase] at hs
      rw [hs] at hphase
      exact ⟨.stopWins, by decide, by simp [heeds], hmoves (.stopTakenBackingOff hphase) rfl⟩
    | ended by_ => exact absurd ⟨by_, hphase⟩ hgoes
  obtain ⟨e, hown, hok, hsome⟩ := hadmits
  have hnone := hstuck e hown
  rw [guarded, if_pos hok] at hnone
  simp [hnone] at hsome

theorem Move.requested {s t : Loop} {e : Event} (h : Move s e t) (hs : s.requested = true) :
    t.requested = true := by
  cases h with
  | delivered hp hi => rfl
  | _ => exact hs

/-- The loop can go on to a child spawned after the stop. -/
def Respawns (s : Loop) : Prop :=
  ∃ t, Reachable step s t ∧ t.requested = true ∧ 0 < t.spawnedAfter

theorem Respawns.of_step {s t : Loop} {e : Event} (h : step s e = some t) (ht : Respawns t) : Respawns s := by
  obtain ⟨u, hu, hspawned⟩ := ht
  have hone : Reachable step s t := ⟨[e], by simp [run, h]⟩
  exact ⟨u, hone.trans hu, hspawned⟩

theorem Respawns.of_move {s t : Loop} {e : Event} (h : Move s e t) (hplain : e.plain = true)
    (ht : Respawns t) :
    Respawns s :=
  .of_step (step_of_move h hplain) ht

theorem respawns_starting {s : Loop} (hp : s.phase = .starting) (hreq : s.requested = true) : Respawns s := by
  have hspawn : step s (.spawn true) = some _ := step_of_move (.spawned hp) rfl
  refine .of_step hspawn ⟨_, ⟨[], rfl⟩, hreq, ?_⟩
  rw [if_pos hreq]
  exact Nat.succ_pos _

theorem respawns_due {s : Loop} {listener : Option Bool} (hp : s.phase = .backingOff true listener)
    (hreq : s.requested = true) : Respawns s := by
  have hstarting : Respawns { s with phase := .starting, installed := s.installed || false } :=
    respawns_starting rfl hreq
  exact .of_move (.timerTaken false hp) rfl hstarting

theorem respawns_backingOff {s : Loop} {due : Bool} {listener : Option Bool}
    (hp : s.phase = .backingOff due listener) (hreq : s.requested = true) : Respawns s := by
  cases due with
  | true => exact respawns_due hp hreq
  | false =>
    have hdue : Respawns { s with phase := .backingOff true listener } := respawns_due rfl hreq
    exact .of_move (.due hp) rfl hdue

theorem respawns_draining {s : Loop} {status : ExitStatus} (hp : s.phase = .draining status)
    (hf : status.isFinal = false) (hreq : s.requested = true) : Respawns s := by
  have hnone : finalStatus (classifyExit status []) = none := by
    apply Option.not_isSome_iff_eq_none.mp
    simp [finalStatus_classifyExit, hf]
  have hstep : step s (.drained []) = some { s with phase := .backingOff false none } := by
    rw [step_drained hp, hnone]
  exact .of_step hstep (respawns_backingOff rfl hreq)

/-- A child that has exited, and with no final status, is reaped before the stop. -/
theorem respawns_reaped {s : Loop} {listener : Option Bool} (hp : s.phase = .waiting listener)
    (hc : s.child ≠ .none ∧ s.child ≠ .running) (hf : s.child.isFinal = false) (hreq : s.requested = true) :
    Respawns s := by
  cases hchild : s.child with
  | none => exact absurd hchild hc.1
  | running => exact absurd hchild hc.2
  | exited status =>
    have hfinal : status.isFinal = false := by
      rw [hchild] at hf
      exact hf
    have hdraining : Respawns { s with phase := .draining status, installed := s.installed || false } :=
      respawns_draining rfl hfinal hreq
    exact .of_move (.reaped false hp hchild) rfl hdraining
  | lost =>
    have hbacking : Respawns { s with phase := .backingOff false none, installed := s.installed || false } :=
      respawns_backingOff rfl hreq
    exact .of_move (.waitFailed false hp hchild) rfl hbacking

theorem respawns_waiting {s : Loop} {listener : Option Bool} (hp : s.phase = .waiting listener)
    (hc : s.child ≠ .none) (hf : s.child.isFinal = false) (hreq : s.requested = true) : Respawns s := by
  by_cases hrunning : s.child = .running
  · -- the child's own exit is ready as well, and wins
    have hexited : Respawns { s with phase := .waiting listener, child := .exited ⟨none, some 1⟩ } :=
      respawns_reaped rfl ⟨by nofun, by nofun⟩ rfl hreq
    exact .of_move (.exited (some ⟨none, some 1⟩) hp hrunning) rfl hexited
  · exact respawns_reaped hp ⟨hc, hrunning⟩ hf hreq

theorem pending_of_exit_lost {s : Loop} {listener : Option Bool} {stopPolled : Bool}
    (hp : s.phase = .waiting listener) (h : heeds s (.exitWins stopPolled) = false) :
    listener = some true ∧ s.child.isFinal = false := by
  unfold heeds at h
  split at h <;> simp_all

theorem pending_of_timer_lost {s : Loop} {due : Bool} {listener : Option Bool} {stopPolled : Bool}
    (hp : s.phase = .backingOff due listener) (h : heeds s (.timerWins stopPolled) = false) :
    listener = some true := by
  unfold heeds at h
  split at h <;> simp_all

/-- Every stop that is not heeded can be followed by a new child. -/
theorem respawns_of_not_heeds {s t : Loop} {e : Event} (hs : s.Sound) (hstep : step s e = some t)
    (hlost : heeds s e = false) : Respawns t := by
  obtain ⟨hreq, hphase⟩ := hs
  cases move_of_step hstep with
  | reaped stopPolled hp hc =>
    obtain ⟨hlistener, hfinal⟩ := pending_of_exit_lost hp hlost
    rw [hc] at hfinal
    rw [hp] at hphase
    exact respawns_draining rfl hfinal (hphase.2 hlistener)
  | waitFailed stopPolled hp hc =>
    have hlistener := (pending_of_exit_lost hp hlost).1
    rw [hp] at hphase
    exact respawns_backingOff rfl (hphase.2 hlistener)
  | timerTaken stopPolled hp =>
    have hlistener := pending_of_timer_lost hp hlost
    rw [hp] at hphase
    exact respawns_starting rfl (hphase.2 hlistener)
  | delivered hp hi =>
    cases hphase' : s.phase with
    | starting => exact respawns_starting rfl rfl
    | waiting listener =>
      simp only [heeds, hphase', hi, Bool.not_true, Bool.false_or, Bool.or_eq_false_iff] at hlost
      rw [hphase'] at hphase
      exact respawns_waiting rfl hphase.1 hlost.2 rfl
    | draining status =>
      simp only [heeds, hphase', hi, Bool.not_true, Bool.false_or] at hlost
      exact respawns_draining rfl hlost rfl
    | backingOff due listener => exact respawns_backingOff rfl rfl
    | stopping => simp [heeds, hphase'] at hlost
    | ended by_ => exact absurd hphase' (hp by_)
  | deliveredEnded hp => simp [heeds, hp] at hlost
  | killed hp hi =>
    cases hphase' : s.phase <;> simp [heeds, hphase', hi] at hlost
  | _ => simp [heeds] at hlost

theorem requested_step (s : Loop) (e : Event) (t : Loop) (hs : s.requested = true)
    (h : guarded step heeds s e = some t) : t.requested = true :=
  (move_of_step (guarded_eq_some.mp h).2).requested hs

/-- Where every stop is heeded no child is spawned after one, and the loop ends within four steps of its
own, its child sent SIGTERM or exited; any step that leaves a stop unheeded can be followed by a new child. -/
theorem stopped_iff_heeded (s : Loop) :
    (Reachable (guarded step heeds) Loop.init s → s.requested = true →
      ∀ es t, run (guarded step heeds) s es = some t →
        t.spawnedAfter = 0 ∧ es.countP Event.isOwn ≤ 4 ∧
          ((∀ e : Event, e.isOwn = true → guarded step heeds t e = none) →
            ∃ by_, t.phase = .ended by_ ∧ by_ ≠ .signal ∧ (t.termSent = true ∨ t.child ≠ .running))) ∧
    ∀ e t, Reachable step Loop.init s → step s e = some t → heeds s e = false →
      ∃ u, Reachable step t u ∧ u.requested = true ∧ 0 < u.spawnedAfter := by
  constructor
  · intro hreach hreq es t hrun
    have hs : s.Heeded := reachable_invariant heeded_step heeded_init hreach
    have ht : t.Heeded := run_invariant _ _ heeded_step es s t hs hrun
    have htreq : t.requested = true := run_invariant _ _ requested_step es s t hreq hrun
    have hrank : es.countP Event.isOwn + t.rank ≤ s.rank := by
      apply run_rank (P := fun u => u.Heeded ∧ u.requested = true) ?_ ?_ ⟨hs, hreq⟩ hrun
      · intro u e v hu h
        exact ⟨heeded_step u e v hu.1 h, requested_step u e v hu.2 h⟩
      · intro u e v hu h
        obtain ⟨hok, hstep⟩ := guarded_eq_some.mp h
        exact (move_of_step hstep).rank_lt hok (hu.1.2.2 hu.2)
    refine ⟨ht.2.1, by have := s.rank_le; omega, fun hstuck => ?_⟩
    obtain ⟨by_, hphase⟩ := ended_of_stuck (ht.2.2 htreq) hstuck
    have hsound := ht.1.2
    rw [hphase] at hsound
    refine ⟨by_, hphase, ?_⟩
    cases by_ with
    | stop => exact ⟨by nofun, hsound⟩
    | final n => exact ⟨by nofun, Or.inr hsound⟩
    | signal => exact absurd (htreq.symm.trans hsound) (by decide)
  · intro e t hreach hstep hlost
    have hs : s.Sound := reachable_invariant sound_step sound_init hreach
    exact respawns_of_not_heeds hs hstep hlost

/-- A stop delivered while the stderr of a child that has exited is drained: the next child is spawned. -/
theorem stop_lost_in_drain :
    ∃ s, run step Loop.init
        [.spawn true, .poll, .childExits (some ⟨none, some 1⟩), .exitWins false, .deliver, .drained [],
          .timerDue, .timerWins false, .spawn true] = some s ∧
      s.requested = true ∧ s.spawnedAfter = 1 ∧ s.child = .running ∧ s.termSent = false :=
  ⟨⟨.waiting none, .running, false, true, true, 1⟩, by decide +kernel, by decide⟩

end CtAgent.Supervisor
