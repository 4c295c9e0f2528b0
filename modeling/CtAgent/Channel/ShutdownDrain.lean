import CtAgent.Lib.History

/-! The drain of a stopped one-shot member beside its QUIC sessions: the tickets they are counted by,
the single loads of a look, the clock and a second stop signal, in any interleaving. Times are
nanoseconds. -/
namespace CtAgent.Channel.Shutdown
open CtAgent.Lib

def drainPoll : ℕ := 50 * 10^6

inductive DrainEnd where
  | idle
  | timedOut (n : ℕ)
  | interrupted (n : ℕ)
  deriving DecidableEq, Repr

/-- What the end says is cut. -/
def DrainEnd.cut : DrainEnd → ℕ
  | .idle => 0
  | .timedOut n | .interrupted n => n

def exitStatus (end_ : DrainEnd) (persistent : Bool) (signal : String) : ℕ :=
  if persistent || end_.cut == 0 then 0
  else if signal = "SIGTERM" then 128 + 15
  else 128 + 2

/-- `established` and `tail` hold a ticket; `gap` is the step between the two, from the drop of the first
ticket on; behind `done` the peer has acknowledged the tail. -/
inductive SessionPhase where
  | handshaking | established
  | gap (since : ℕ)
  | tail | done
  deriving DecidableEq, Repr

/-- `early`: the handshake was done before the first look of the drain. -/
structure Session where
  phase : SessionPhase
  early : Bool
  deriving DecidableEq, Repr

/-- Where the stopped member stands: a look's three loads, the decision on what it counted, the sleep, the
end of the drain, and the exit status it returned. `last`: the look behind a second stop signal. -/
inductive DrainPhase where
  | running
  | loadEstablished (last : Bool)
  | loadTails (last : Bool) (established : ℕ)
  | loadServing (last : Bool) (sessions : ℕ)
  | looked (last : Bool) (n : ℕ)
  | sleeping (wake : ℕ)
  | ended (end_ : DrainEnd)
  | returned (status : ℕ)
  deriving DecidableEq, Repr

/-- The counters of `ChannelHealth`, the sessions, and the stopped member. `looked`, `slept` and `inGap` are
for the statement: a look was begun, what the last sleep asked for, and which early sessions the last look
met between their tickets. -/
structure State where
  now : ℕ
  established : ℕ
  quicTails : ℕ
  serving : ℕ
  sessions : List Session
  again : Bool
  drain : DrainPhase
  deadline : Option ℕ
  idleLooks : ℕ
  looked : Bool
  slept : Option ℕ
  inGap : List ℕ
  deriving DecidableEq, Repr

/-- No session yet. A one-shot member has none of a persistent serve. -/
def State.start : State := ⟨0, 0, 0, 0, [], false, .running, none, 0, false, none, []⟩

inductive Event where
  | begin
  | session (i : ℕ)
  | tick (d : ℕ)
  | again
  | stop
  | drain
  deriving DecidableEq, Repr

namespace State

/-- Time passes, but no session stays between its tickets for a whole poll. -/
def tick (s : State) (d : ℕ) : Option State :=
  if s.sessions.all (fun x =>
      match x.phase with
      | .gap since => decide (s.now + d < since + drainPoll)
      | _ => true)
  then some { s with now := s.now + d } else none

def put (s : State) (i : ℕ) (phase : SessionPhase) (early : Bool) : State :=
  { s with sessions := s.sessions.set i ⟨phase, early⟩ }

/-- The next step of a session, with the ticket it takes or drops. -/
def advance (s : State) (i : ℕ) (x : Session) : Option State :=
  match x.phase with
  | .handshaking => some { s.put i .established (!s.looked) with established := s.established + 1 }
  | .established => some { s.put i (.gap s.now) x.early with established := s.established - 1 }
  | .gap _ => some { s.put i .tail x.early with quicTails := s.quicTails + 1 }
  | .tail => some { s.put i .done x.early with quicTails := s.quicTails - 1 }
  | .done => none

/-- `Instant::now().checked_add(drain)` on a clock that ends at `clockEnd`. -/
def checkedAdd (clockEnd now drain : ℕ) : Option ℕ :=
  if now + drain ≤ clockEnd then some (now + drain) else none

/-- The early sessions between their tickets. -/
def earlyGaps (s : State) : List ℕ :=
  (List.range s.sessions.length).filter (fun i =>
    match s.sessions[i]? with
    | some ⟨.gap _, true⟩ => true
    | _ => false)

/-- How long the sleep behind a look is; `none` at the deadline. -/
def pause (s : State) : Option ℕ :=
  match s.deadline with
  | some deadline => if deadline ≤ s.now then none else some (min drainPoll (deadline - s.now))
  | none => some drainPoll

/-- Behind a look that counted `n`. -/
def decideOn (s : State) (n : ℕ) : State :=
  let idleLooks := if n = 0 then s.idleLooks + 1 else 0
  if 2 ≤ idleLooks then { s with drain := .ended .idle, idleLooks := idleLooks }
  else
    match s.pause with
    | none => { s with drain := .ended (if n = 0 then .idle else .timedOut n), idleLooks := idleLooks }
    | some d => { s with drain := .sleeping (s.now + d), idleLooks := idleLooks, slept := some d }

section
variable (signal : String)

/-- The drain's next step. -/
def drainStep (s : State) : Option State :=
  match s.drain with
  | .running => none
  | .loadEstablished last => some { s with drain := .loadTails last s.established, looked := true }
  | .loadTails last established =>
    some { s with drain := .loadServing last (established + s.quicTails), inGap := s.earlyGaps }
  | .loadServing last sessions => some { s with drain := .looked last (max s.serving sessions) }
  | .looked true n => some { s with drain := .ended (.interrupted n) }
  | .looked false n => some (s.decideOn n)
  | .sleeping wake =>
    -- the second signal goes first
    if s.again then some { s with drain := .loadEstablished true }
    else if wake ≤ s.now then some { s with drain := .loadEstablished false }
    else none
  | .ended end_ => some { s with drain := .returned (exitStatus end_ false signal) }
  | .returned _ => none

variable (clockEnd drain : ℕ)

/-- With the status returned the process is over. -/
def step (s : State) (e : Event) : Option State :=
  match s.drain with
  | .returned _ => none
  | _ =>
    match e with
    | .begin => some { s with sessions := s.sessions ++ [⟨.handshaking, false⟩] }
    | .session i => s.sessions[i]?.bind (s.advance i)
    | .tick d => s.tick d
    | .again => some { s with again := true }
    | .stop =>
      match s.drain with
      | .running =>
        some { s with drain := .loadEstablished false, deadline := checkedAdd clockEnd s.now drain }
      | _ => none
    | .drain => s.drainStep signal

end
end State

/-- With status 0 no early session is cut. -/
def NoCutWork (s : State) : Prop :=
  s.drain = .returned 0 → ∀ (i : ℕ) (x : Session), s.sessions[i]? = some x → x.early = true → x.phase = .done

/-- The drain ended by two looks in a row at nothing, a whole poll apart. -/
def TwoFullLooks (s : State) : Prop := s.idleLooks = 2 ∧ s.slept = some drainPoll

/-- Where it ended in another way, with status 0, every early session that the last look met between its
tickets was acknowledged before the return. -/
def LastLookSafe (s : State) : Prop :=
  s.drain = .returned 0 → 
    TwoFullLooks s ∨ ∀ i ∈ s.inGap, ∀ x : Session, s.sessions[i]? = some x → x.early = true → x.phase = .done

namespace SessionPhase

/-- Behind the pump. -/
def pastPump : SessionPhase → Prop
  | .handshaking | .established => False
  | _ => True

/-- Behind the step between the tickets. -/
def pastGap : SessionPhase → Prop
  | .tail | .done => True
  | _ => False

theorem pastPump_of {p : SessionPhase} (hhandshaking : p ≠ .handshaking) (hestablished : p ≠ .established) :
    p.pastPump := by
  cases p with
  | handshaking => exact absurd rfl hhandshaking
  | established => exact absurd rfl hestablished
  | gap since => trivial
  | tail => trivial
  | done => trivial

theorem pastPump_cases {p : SessionPhase} (h : p.pastPump) : (∃ since, p = .gap since) ∨ p.pastGap := by
  cases p with
  | handshaking => exact h.elim
  | established => exact h.elim
  | gap since => exact Or.inl ⟨since, rfl⟩
  | tail => exact Or.inr trivial
  | done => exact Or.inr trivial

theorem pastGap_cases {p : SessionPhase} (h : p.pastGap) : p = .tail ∨ p = .done := by
  cases p with
  | handshaking => exact h.elim
  | established => exact h.elim
  | gap since => exact h.elim
  | tail => exact Or.inl rfl
  | done => exact Or.inr rfl

/-- The phase a session goes on to. -/
inductive Next (now : ℕ) : SessionPhase → SessionPhase → Prop where
  | pumped : Next now .established (.gap now)
  | tailed (since : ℕ) : Next now (.gap since) .tail
  | acked : Next now .tail .done

theorem Next.pastPump {now : ℕ} {p q : SessionPhase} (h : Next now p q) : q.pastPump := by
  cases h with
  | pumped => trivial
  | tailed since => trivial
  | acked => trivial

theorem Next.pastGap {now : ℕ} {p q : SessionPhase} (h : Next now p q) (hp : p.pastGap) : q.pastGap := by
  cases h with
  | pumped => exact hp.elim
  | tailed since => exact hp.elim
  | acked => trivial

theorem Next.not_done {now : ℕ} {p q : SessionPhase} (h : Next now p q) : p ≠ .done := by
  cases h with
  | pumped => exact nofun
  | tailed since => exact nofun
  | acked => exact nofun

/-- A step between the tickets begins now. -/
theorem Next.since_eq {now since : ℕ} {p q : SessionPhase} (h : Next now p q) (hq : q = .gap since) :
    since = now := by
  cases h with
  | pumped => exact (SessionPhase.gap.inj hq).symm
  | tailed since' => exact absurd hq nofun
  | acked => exact absurd hq nofun

theorem Next.not_gap {now : ℕ} {p q : SessionPhase} (h : Next now p q) (hp : p.pastPump) (since : ℕ) :
    q ≠ .gap since := by
  cases h with
  | pumped => exact hp.elim
  | tailed since => exact nofun
  | acked => exact nofun

end SessionPhase

/-- The look under way follows a look at nothing, and the sleep between them was a whole poll. -/
def FollowsFull (s : State) : Prop := s.idleLooks = 1 ∧ s.slept = some drainPoll

/-- What the drain's phase tells of the `i`-th session where it is early. -/
def Demand (s : State) (i : ℕ) (p : SessionPhase) : Prop :=
  match s.drain with
  | .running => True
  | .loadEstablished last => last = false → FollowsFull s → p.pastGap
  | .loadTails last established => (established = 0 → p.pastPump) ∧ (last = false → FollowsFull s → p.pastGap)
  | .loadServing last n | .looked last n =>
    n = 0 → p.pastPump ∧ (p ≠ .done → i ∈ s.inGap) ∧ (last = false → FollowsFull s → p = .done)
  | .sleeping wake =>
    s.idleLooks = 1 → p.pastPump ∧ ∀ since d, p = .gap since → s.slept = some d → since + d ≤ wake
  | .ended end_ => end_.cut = 0 → (p ≠ .done → i ∈ s.inGap) ∧ (TwoFullLooks s → p = .done)
  | .returned status => status = 0 → (p ≠ .done → i ∈ s.inGap) ∧ (TwoFullLooks s → p = .done)

/-- A session that goes on keeps what the drain's phase tells of it. -/
theorem Demand.next {s t : State} {i : ℕ} {p q : SessionPhase} (h : Demand s i p) (hnext : p.Next s.now q)
    (hdrain : t.drain = s.drain) (hidle : t.idleLooks = s.idleLooks) (hslept : t.slept = s.slept)
    (hgap : t.inGap = s.inGap) : Demand t i q := by
  have hnot := hnext.not_done
  unfold Demand FollowsFull TwoFullLooks at h ⊢
  rw [hdrain, hidle, hslept, hgap]
  cases hd : s.drain with
  | running => trivial
  | loadEstablished last =>
    rw [hd] at h
    exact fun hlast hfull => hnext.pastGap (h hlast hfull)
  | loadTails last established =>
    rw [hd] at h
    exact ⟨fun _ => hnext.pastPump, fun hlast hfull => hnext.pastGap (h.2 hlast hfull)⟩
  | loadServing last n =>
    rw [hd] at h
    intro hn
    obtain ⟨-, hmem, hdone⟩ := h hn
    exact ⟨hnext.pastPump, fun _ => hmem hnot, fun hlast hfull => absurd (hdone hlast hfull) hnot⟩
  | looked last n =>
    rw [hd] at h
    intro hn
    obtain ⟨-, hmem, hdone⟩ := h hn
    exact ⟨hnext.pastPump, fun _ => hmem hnot, fun hlast hfull => absurd (hdone hlast hfull) hnot⟩
  | sleeping wake =>
    rw [hd] at h
    intro hone
    exact ⟨hnext.pastPump, fun since d hq _ => absurd hq (hnext.not_gap (h hone).1 since)⟩
  | ended end_ =>
    rw [hd] at h
    intro hcut
    exact ⟨fun _ => (h hcut).1 hnot, fun hfull => absurd ((h hcut).2 hfull) hnot⟩
  | returned status =>
    rw [hd] at h
    intro hstatus
    exact ⟨fun _ => (h hstatus).1 hnot, fun hfull => absurd ((h hstatus).2 hfull) hnot⟩

/-- The counters count the tickets, no step between two tickets lasts a whole poll, and the early sessions
are as the drain's phase tells. -/
structure Inv (s : State) : Prop where
  established : s.established = s.sessions.countP (fun x => x.phase == .established)
  quicTails : s.quicTails = s.sessions.countP (fun x => x.phase == .tail)
  gaps : ∀ x ∈ s.sessions, ∀ since, x.phase = .gap since → since ≤ s.now ∧ s.now < since + drainPoll
  handshaken : ∀ x ∈ s.sessions, x.early = true → x.phase ≠ .handshaking
  unlooked : s.looked = false → s.idleLooks = 0 ∧
    (s.drain = .running ∨ ∃ last, s.drain = .loadEstablished last)
  unstopped : s.drain = .running → s.looked = false
  idleLooks : (∀ end_, s.drain ≠ .ended end_) → (∀ status, s.drain ≠ .returned status) → s.idleLooks ≤ 1
  sessions : ∀ (i : ℕ) (x : Session), s.sessions[i]? = some x → x.early = true → Demand s i x.phase

theorem inv_start : Inv .start := by
  refine ⟨rfl, rfl, nofun, nofun, fun _ => ⟨rfl, Or.inl rfl⟩, fun _ => rfl, fun _ _ => Nat.zero_le 1,
    fun i x hx => ?_⟩
  exact absurd hx nofun

/-- Before the first look nothing is told of a session. -/
theorem Inv.demand_unlooked {s : State} (h : Inv s) (hlooked : s.looked = false) (i : ℕ) (p : SessionPhase) :
    Demand s i p := by
  obtain ⟨hidle, hdrain | ⟨last, hdrain⟩⟩ := h.unlooked hlooked
  · unfold Demand
    rw [hdrain]
    trivial
  · unfold Demand
    rw [hdrain]
    intro _ hfull
    rw [FollowsFull, hidle] at hfull
    omega

theorem Demand.congr {s t : State} {i : ℕ} {p : SessionPhase} (h : Demand s i p) (hdrain : t.drain = s.drain)
    (hidle : t.idleLooks = s.idleLooks) (hslept : t.slept = s.slept) (hgap : t.inGap = s.inGap) :
    Demand t i p := by
  unfold Demand FollowsFull TwoFullLooks at h ⊢
  rw [hdrain, hidle, hslept, hgap]
  exact h

section
variable {s t : State} {i : ℕ} {x : Session}

/-- What the next step of a session does: the handshake, or a step on behind it. -/
structure Advanced (s : State) (i : ℕ) (x : Session) (t : State) (q : SessionPhase) (early : Bool) : Prop where
  sessions : t.sessions = s.sessions.set i ⟨q, early⟩
  how : x.phase = .handshaking ∧ q = .established ∧ early = !s.looked ∨ x.phase.Next s.now q ∧ early = x.early
  now : t.now = s.now
  looked : t.looked = s.looked
  drain : t.drain = s.drain
  idleLooks : t.idleLooks = s.idleLooks
  slept : t.slept = s.slept
  inGap : t.inGap = s.inGap

theorem advance_cases (ht : s.advance i x = some t) : ∃ q early, Advanced s i x t q early := by
  unfold State.advance at ht
  cases hp : x.phase with
  | handshaking =>
    rw [hp] at ht
    obtain rfl := Option.some.inj ht
    exact ⟨_, _, rfl, Or.inl ⟨hp, rfl, rfl⟩, rfl, rfl, rfl, rfl, rfl, rfl⟩
  | established =>
    rw [hp] at ht
    obtain rfl := Option.some.inj ht
    exact ⟨_, _, rfl, Or.inr ⟨hp ▸ .pumped, rfl⟩, rfl, rfl, rfl, rfl, rfl, rfl⟩
  | gap since =>
    rw [hp] at ht
    obtain rfl := Option.some.inj ht
    exact ⟨_, _, rfl, Or.inr ⟨hp ▸ .tailed since, rfl⟩, rfl, rfl, rfl, rfl, rfl, rfl⟩
  | tail =>
    rw [hp] at ht
    obtain rfl := Option.some.inj ht
    exact ⟨_, _, rfl, Or.inr ⟨hp ▸ .acked, rfl⟩, rfl, rfl, rfl, rfl, rfl, rfl⟩
  | done =>
    rw [hp] at ht
    exact absurd ht nofun

/-- The counters follow the tickets. -/
theorem Inv.advance_counts (h : Inv s) (hx : s.sessions[i]? = some x) (ht : s.advance i x = some t) :
    t.established = t.sessions.countP (fun x => x.phase == .established) ∧
      t.quicTails = t.sessions.countP (fun x => x.phase == .tail) := by
  have hest := h.established
  have htail := h.quicTails
  unfold State.advance at ht
  cases hp : x.phase with
  | handshaking =>
    rw [hp] at ht
    obtain rfl := Option.some.inj ht
    have h1 := countP_put hx (fun x => x.phase == .established) ⟨.established, !s.looked⟩
    have h2 := countP_put hx (fun x => x.phase == .tail) ⟨.established, !s.looked⟩
    simp [hp] at h1 h2
    exact ⟨hest ▸ h1.symm, htail.trans h2.symm⟩
  | established =>
    rw [hp] at ht
    obtain rfl := Option.some.inj ht
    have h1 := countP_put hx (fun x => x.phase == .established) ⟨.gap s.now, x.early⟩
    have h2 := countP_put hx (fun x => x.phase == .tail) ⟨.gap s.now, x.early⟩
    simp [hp] at h1 h2
    refine ⟨?_, htail.trans h2.symm⟩
    change s.established - 1 = (s.sessions.set i _).countP _
    omega
  | gap since =>
    rw [hp] at ht
    obtain rfl := Option.some.inj ht
    have h1 := countP_put hx (fun x => x.phase == .established) ⟨.tail, x.early⟩
    have h2 := countP_put hx (fun x => x.phase == .tail) ⟨.tail, x.early⟩
    simp [hp] at h1 h2
    exact ⟨hest.trans h1.symm, htail ▸ h2.symm⟩
  | tail =>
    rw [hp] at ht
    obtain rfl := Option.some.inj ht
    have h1 := countP_put hx (fun x => x.phase == .established) ⟨.done, x.early⟩
    have h2 := countP_put hx (fun x => x.phase == .tail) ⟨.done, x.early⟩
    simp [hp] at h1 h2
    refine ⟨hest.trans h1.symm, ?_⟩
    change s.quicTails - 1 = (s.sessions.set i _).countP _
    omega
  | done =>
    rw [hp] at ht
    exact absurd ht nofun

theorem Inv.advance (h : Inv s) (hx : s.sessions[i]? = some x) (ht : s.advance i x = some t) : Inv t := by
  obtain ⟨hest, htail⟩ := h.advance_counts hx ht
  obtain ⟨q, early, hs, hhow, hnow, hlooked, hdrain, hidle, hslept, hgap⟩ := advance_cases ht
  have hmem : x ∈ s.sessions := List.mem_of_getElem? hx
  refine ⟨hest, htail, ?_, ?_, ?_, ?_, ?_, ?_⟩
  · intro y hy since hphase
    rw [hnow]
    rw [hs] at hy
    rcases List.mem_or_eq_of_mem_set hy with hy | rfl
    · exact h.gaps y hy since hphase
    · rcases hhow with ⟨-, rfl, -⟩ | ⟨hnext, -⟩
      · exact absurd hphase nofun
      · have hsince : since = s.now := hnext.since_eq hphase
        exact ⟨hsince.le, hsince ▸ Nat.lt_add_of_pos_right (by decide)⟩
  · intro y hy hearly
    rw [hs] at hy
    rcases List.mem_or_eq_of_mem_set hy with hy | rfl
    · exact h.handshaken y hy hearly
    · rcases hhow with ⟨-, rfl, -⟩ | ⟨hnext, -⟩
      · exact nofun
      · intro hq
        have hpast := hnext.pastPump
        change q = .handshaking at hq
        rw [hq] at hpast
        exact hpast.elim
  · rw [hlooked, hidle, hdrain]
    exact h.unlooked
  · rw [hlooked, hdrain]
    exact h.unstopped
  · rw [hidle, hdrain]
    exact h.idleLooks
  · intro j y hy hearly
    rw [hs, List.getElem?_set] at hy
    by_cases hj : i = j
    · rw [if_pos hj] at hy
      split at hy
      · obtain rfl := Option.some.inj hy
        rcases hhow with ⟨-, -, hnew⟩ | ⟨hnext, hold⟩
        · -- only before the first look does a handshake make an early session
          have hnone : s.looked = false := by
            rw [hnew] at hearly
            simpa using hearly
          exact (h.demand_unlooked hnone j q).congr hdrain hidle hslept hgap
        · have hearly' : x.early = true := hold ▸ hearly
          exact (h.sessions j x (hj ▸ hx) hearly').next hnext hdrain hidle hslept hgap
      · exact absurd hy nofun
    · rw [if_neg hj] at hy
      exact (h.sessions j y hy hearly).congr hdrain hidle hslept hgap

end

/-- A one-shot member's status is 0 only where nothing was cut. -/
theorem cut_of_exitStatus {end_ : DrainEnd} {signal : String} (h : exitStatus end_ false signal = 0) :
    end_.cut = 0 := by
  unfold exitStatus at h
  split at h
  · rename_i hcut
    simpa using hcut
  · split at h
    · omega
    · omega

section
variable {s t : State} {signal : String}

/-- Behind the first load the drain has looked. -/
theorem Inv.looked_of (h : Inv s) (hrunning : s.drain ≠ .running)
    (hload : ∀ last, s.drain ≠ .loadEstablished last) :
    s.looked = true := by
  cases hlooked : s.looked with
  | true => rfl
  | false =>
    rcases (h.unlooked hlooked).2 with hd | ⟨last, hd⟩
    · exact absurd hd hrunning
    · exact absurd hd (hload last)

/-- A step of the drain moves no session. -/
theorem Inv.of_drain (h : Inv s) (hsame : t.sessions = s.sessions ∧ t.established = s.established ∧
      t.quicTails = s.quicTails ∧ t.now = s.now) (hlooked : t.looked = true) (hrunning : t.drain ≠ .running)
    (hidle : (∀ end_, t.drain ≠ .ended end_) → (∀ status, t.drain ≠ .returned status) → t.idleLooks ≤ 1)
    (hdemand : ∀ (i : ℕ) (x : Session), s.sessions[i]? = some x → x.early = true → Demand t i x.phase) :
    Inv t := by
  obtain ⟨hsessions, hest, htail, hnow⟩ := hsame
  refine ⟨?_, ?_, ?_, ?_, ?_, ?_, hidle, ?_⟩
  · rw [hsessions, hest]
    exact h.established
  · rw [hsessions, htail]
    exact h.quicTails
  · rw [hsessions, hnow]
    exact h.gaps
  · rw [hsessions]
    exact h.handshaken
  · intro hnone
    rw [hlooked] at hnone
    exact absurd hnone nofun
  · exact fun hd => absurd hd hrunning
  · rw [hsessions]
    exact hdemand

/-- What a decision on a look at nothing may rest on. -/
theorem Inv.decide (h : Inv s) {n : ℕ} (hd : s.drain = .looked false n) : Inv (s.decideOn n) := by
  have hlooked : s.looked = true := h.looked_of (by rw [hd]; exact nofun) (by rw [hd]; exact nofun)
  have hidle : s.idleLooks ≤ 1 := h.idleLooks (by rw [hd]; exact nofun) (by rw [hd]; exact nofun)
  have htold {i : ℕ} {x : Session} (hx : s.sessions[i]? = some x) (hearly : x.early = true) (hn : n = 0) :
      x.phase.pastPump ∧ (x.phase ≠ .done → i ∈ s.inGap) ∧ (FollowsFull s → x.phase = .done) := by
    have hdemand := h.sessions i x hx hearly
    unfold Demand at hdemand
    rw [hd] at hdemand
    exact ⟨(hdemand hn).1, (hdemand hn).2.1, (hdemand hn).2.2 rfl⟩
  unfold State.decideOn
  by_cases htwo : 2 ≤ (if n = 0 then s.idleLooks + 1 else 0)
  · simp only [if_pos htwo]
    have hn : n = 0 := by
      by_contra hne
      rw [if_neg hne] at htwo
      omega
    rw [if_pos hn] at htwo
    have hone : s.idleLooks = 1 := by omega
    refine h.of_drain ⟨rfl, rfl, rfl, rfl⟩ hlooked nofun (fun hend _ => absurd rfl (hend .idle)) ?_
    intro i x hx hearly _
    obtain ⟨-, hmem, hdone⟩ := htold hx hearly hn
    exact ⟨hmem, fun hfull => hdone ⟨hone, hfull.2⟩⟩
  · simp only [if_neg htwo]
    cases hpause : s.pause with
    | none =>
      dsimp only
      refine h.of_drain ⟨rfl, rfl, rfl, rfl⟩ hlooked nofun (fun hend _ => absurd rfl (hend _)) ?_
      intro i x hx hearly hcut
      have hn : n = 0 := by
        by_contra hne
        rw [if_neg hne] at hcut
        exact hne hcut
      exact ⟨(htold hx hearly hn).2.1, fun hfull => absurd hfull.1 (by dsimp only; omega)⟩
    | some d =>
      dsimp only
      refine h.of_drain ⟨rfl, rfl, rfl, rfl⟩ hlooked nofun (fun _ _ => by dsimp only; omega) ?_
      intro i x hx hearly hone
      have hn : n = 0 := by
        by_contra hne
        dsimp only at hone
        rw [if_neg hne] at hone
        omega
      refine ⟨(htold hx hearly hn).1, fun since d' hphase hslept => ?_⟩
      obtain rfl := Option.some.inj hslept
      have hsince := (h.gaps x (List.mem_of_getElem? hx) since hphase).1
      change since + d ≤ s.now + d
      omega

theorem mem_earlyGaps {i : ℕ} {x : Session} {since : ℕ} (hx : s.sessions[i]? = some x)
    (hearly : x.early = true)
    (hphase : x.phase = .gap since) : i ∈ s.earlyGaps := by
  obtain ⟨hlt, hget⟩ := List.getElem?_eq_some_iff.mp hx
  unfold State.earlyGaps
  rw [List.mem_filter]
  refine ⟨List.mem_range.mpr hlt, ?_⟩
  rw [hx]
  obtain ⟨phase, early⟩ := x
  obtain rfl : phase = .gap since := hphase
  obtain rfl : early = true := hearly
  rfl

theorem phase_ne_of_count {sessions : List Session} {p : SessionPhase}
    (hcount : sessions.countP (fun x => x.phase == p) = 0)
    {x : Session} (hx : x ∈ sessions) : x.phase ≠ p := by
  intro hp
  have hzero := List.countP_eq_zero.mp hcount x hx
  exact hzero (beq_iff_eq.mpr hp)

/-- A step of the drain keeps the invariant. -/
theorem Inv.drainStep (h : Inv s) (ht : s.drainStep signal = some t) : Inv t := by
  unfold State.drainStep at ht
  cases hd : s.drain with
  | running =>
    rw [hd] at ht
    exact absurd ht nofun
  | loadEstablished last =>
    rw [hd] at ht
    obtain rfl := Option.some.inj ht
    have hidle := h.idleLooks (by rw [hd]; exact nofun) (by rw [hd]; exact nofun)
    refine h.of_drain ⟨rfl, rfl, rfl, rfl⟩ rfl nofun (fun _ _ => hidle)
      (fun i x hx hearly => ⟨fun hzero => ?_, ?_⟩)
    · have hmem := List.mem_of_getElem? hx
      have hnot := phase_ne_of_count (h.established.symm.trans hzero) hmem
      have hshaken := h.handshaken x hmem hearly
      exact SessionPhase.pastPump_of hshaken hnot
    · have hdemand := h.sessions i x hx hearly
      unfold Demand at hdemand
      rw [hd] at hdemand
      exact hdemand
  | loadTails last established =>
    rw [hd] at ht
    obtain rfl := Option.some.inj ht
    have hlooked := h.looked_of (by rw [hd]; exact nofun) (by rw [hd]; exact nofun)
    have hidle := h.idleLooks (by rw [hd]; exact nofun) (by rw [hd]; exact nofun)
    refine h.of_drain ⟨rfl, rfl, rfl, rfl⟩ hlooked nofun (fun _ _ => hidle) (fun i x hx hearly hzero => ?_)
    have hdemand := h.sessions i x hx hearly
    unfold Demand at hdemand
    rw [hd] at hdemand
    have htails : s.quicTails = 0 := by omega
    have hpump := hdemand.1 (by omega)
    have hnot := phase_ne_of_count (h.quicTails.symm.trans htails) (List.mem_of_getElem? hx)
    refine ⟨hpump, fun hopen => ?_, fun hlast hfull => ?_⟩
    · rcases SessionPhase.pastPump_cases hpump with ⟨since, hp⟩ | hgap
      · exact mem_earlyGaps hx hearly hp
      · rcases SessionPhase.pastGap_cases hgap with hp | hp
        · exact absurd hp hnot
        · exact absurd hp hopen
    · exact (SessionPhase.pastGap_cases (hdemand.2 hlast hfull)).resolve_left hnot
  | loadServing last sessions =>
    rw [hd] at ht
    obtain rfl := Option.some.inj ht
    have hlooked := h.looked_of (by rw [hd]; exact nofun) (by rw [hd]; exact nofun)
    have hidle := h.idleLooks (by rw [hd]; exact nofun) (by rw [hd]; exact nofun)
    refine h.of_drain ⟨rfl, rfl, rfl, rfl⟩ hlooked nofun (fun _ _ => hidle) (fun i x hx hearly hzero => ?_)
    have hdemand := h.sessions i x hx hearly
    unfold Demand at hdemand
    rw [hd] at hdemand
    exact hdemand (by omega)
  | looked last n =>
    rw [hd] at ht
    cases last with
    | false =>
      obtain rfl := Option.some.inj ht
      exact h.decide hd
    | true =>
      obtain rfl := Option.some.inj ht
      have hlooked := h.looked_of (by rw [hd]; exact nofun) (by rw [hd]; exact nofun)
      have hidle := h.idleLooks (by rw [hd]; exact nofun) (by rw [hd]; exact nofun)
      refine h.of_drain ⟨rfl, rfl, rfl, rfl⟩ hlooked nofun (fun hend _ => absurd rfl (hend _))
        (fun i x hx hearly hcut => ?_)
      have hdemand := h.sessions i x hx hearly
      unfold Demand at hdemand
      rw [hd] at hdemand
      refine ⟨(hdemand hcut).2.1, fun hfull => ?_⟩
      have htwo : s.idleLooks = 2 := hfull.1
      omega
  | sleeping wake =>
    rw [hd] at ht
    have hlooked := h.looked_of (by rw [hd]; exact nofun) (by rw [hd]; exact nofun)
    have hidle := h.idleLooks (by rw [hd]; exact nofun) (by rw [hd]; exact nofun)
    dsimp only at ht
    split at ht
    · obtain rfl := Option.some.inj ht
      exact h.of_drain ⟨rfl, rfl, rfl, rfl⟩ hlooked nofun (fun _ _ => hidle)
        (fun i x hx hearly hlast => absurd hlast nofun)
    · split at ht
      · rename_i hwake
        obtain rfl := Option.some.inj ht
        refine h.of_drain ⟨rfl, rfl, rfl, rfl⟩ hlooked nofun (fun _ _ => hidle)
          (fun i x hx hearly _ hfull => ?_)
        have hdemand := h.sessions i x hx hearly
        unfold Demand at hdemand
        rw [hd] at hdemand
        obtain ⟨hpump, hslept⟩ := hdemand hfull.1
        rcases SessionPhase.pastPump_cases hpump with ⟨since, hp⟩ | hgap
        · -- a whole poll has passed since the look before
          have hle := hslept since drainPoll hp hfull.2
          have hlt := (h.gaps x (List.mem_of_getElem? hx) since hp).2
          omega
        · exact hgap
      · exact absurd ht nofun
  | ended end_ =>
    rw [hd] at ht
    obtain rfl := Option.some.inj ht
    have hlooked := h.looked_of (by rw [hd]; exact nofun) (by rw [hd]; exact nofun)
    refine h.of_drain ⟨rfl, rfl, rfl, rfl⟩ hlooked nofun (fun _ hreturned => absurd rfl (hreturned _))
      (fun i x hx hearly hzero => ?_)
    have hdemand := h.sessions i x hx hearly
    unfold Demand at hdemand
    rw [hd] at hdemand
    exact hdemand (cut_of_exitStatus hzero)
  | returned status =>
    rw [hd] at ht
    exact absurd ht nofun

end

section
variable {s t : State}

theorem Inv.tick (h : Inv s) {d : ℕ} (ht : s.tick d = some t) : Inv t := by
  unfold State.tick at ht
  split at ht
  · rename_i hall
    obtain rfl := Option.some.inj ht
    refine ⟨h.established, h.quicTails, fun x hx since hphase => ?_, h.handshaken, h.unlooked, h.unstopped,
      h.idleLooks, ?_⟩
    · have hone := List.all_eq_true.mp hall x hx
      rw [hphase] at hone
      have hlt : s.now + d < since + drainPoll := of_decide_eq_true hone
      have hle := (h.gaps x hx since hphase).1
      exact ⟨Nat.le_add_right_of_le hle, hlt⟩
    · intro i x hx hearly
      exact (h.sessions i x hx hearly).congr rfl rfl rfl rfl
  · exact absurd ht nofun

theorem Inv.begin_session (h : Inv s) : Inv { s with sessions := s.sessions ++ [⟨.handshaking, false⟩] } := by
  have hmem {x : Session} (hx : x ∈ s.sessions ++ [⟨.handshaking, false⟩]) : x ∈ s.sessions ∨
    x = ⟨.handshaking, false⟩ := by
    rcases List.mem_append.mp hx with hx | hx
    · exact Or.inl hx
    · exact Or.inr (List.mem_singleton.mp hx)
  refine ⟨?_, ?_, ?_, ?_, h.unlooked, h.unstopped, h.idleLooks, ?_⟩
  · change s.established = (s.sessions ++ [_]).countP _
    rw [List.countP_append, ← h.established]
    rfl
  · change s.quicTails = (s.sessions ++ [_]).countP _
    rw [List.countP_append, ← h.quicTails]
    rfl
  · intro x hx since hphase
    rcases hmem hx with hx | rfl
    · exact h.gaps x hx since hphase
    · exact absurd hphase nofun
  · intro x hx hearly
    rcases hmem hx with hx | rfl
    · exact h.handshaken x hx hearly
    · exact absurd hearly nofun
  · intro i x hx hearly
    rw [List.getElem?_append] at hx
    split at hx
    · exact (h.sessions i x hx hearly).congr rfl rfl rfl rfl
    · obtain rfl := List.mem_singleton.mp (List.mem_of_getElem? hx)
      exact absurd hearly nofun

theorem Inv.stop (h : Inv s) (hd : s.drain = .running) (deadline : Option ℕ) :
    Inv { s with drain := .loadEstablished false, deadline := deadline } := by
  have hidle := (h.unlooked (h.unstopped hd)).1
  refine ⟨h.established, h.quicTails, h.gaps, h.handshaken, fun _ => ⟨hidle, Or.inr ⟨false, rfl⟩⟩, nofun,
    fun _ _ => ?_, ?_⟩
  · exact hidle.le.trans (Nat.zero_le 1)
  · intro i x hx hearly _ hfull
    have hone : s.idleLooks = 1 := hfull.1
    omega

theorem Inv.step {signal : String} {clockEnd drain : ℕ} {e : Event} (h : Inv s)
    (ht : s.step signal clockEnd drain e = some t) : Inv t := by
  unfold State.step at ht
  split at ht
  · exact absurd ht nofun
  · cases e with
    | begin => exact Option.some.inj ht ▸ h.begin_session
    | session i =>
      obtain ⟨x, hx, ht⟩ := Option.bind_eq_some_iff.mp ht
      exact h.advance hx ht
    | tick d => exact h.tick ht
    | again =>
      obtain rfl := Option.some.inj ht
      exact ⟨h.established, h.quicTails, h.gaps, h.handshaken, h.unlooked, h.unstopped, h.idleLooks,
        fun i x hx hearly => (h.sessions i x hx hearly).congr rfl rfl rfl rfl⟩
    | stop =>
      dsimp only at ht
      split at ht
      · rename_i hd
        exact Option.some.inj ht ▸ h.stop hd _
      · exact absurd ht nofun
    | drain => exact h.drainStep ht

end

/-- Drain time 0, and the look falls between the tickets. -/
def gapRun : List Event :=
  [.begin, .session 0, .session 0, .stop, .drain, .drain, .drain, .drain, .drain]

/-- Two looks a whole poll apart, the session between its tickets at the first of them. -/
def fullRun : List Event :=
  [.begin, .session 0, .session 0, .stop, .drain, .drain, .drain, .drain, .session 0, .session 0,
    .tick drainPoll, .drain,
    .drain, .drain, .drain, .drain, .drain]

/-- In every run status 0 is true to the early sessions exactly where the drain ended by two full looks, or
none of the sessions its last look met between their tickets was left. -/
theorem no_cut_work_iff (signal : String) (clockEnd drain : ℕ) (events : List Event) (s : State)
    (h : run (State.step signal clockEnd drain) .start events = some s) : NoCutWork s ↔ LastLookSafe s := by
  have hinv : Inv s := run_invariant _ Inv (fun _ _ _ hinv hstep => hinv.step hstep) events
    .start s inv_start h
  constructor
  · intro hcut hreturned
    right
    intro i _ x hx hearly
    exact hcut hreturned i x hx hearly
  · intro hsafe hreturned i x hx hearly
    have hdemand := hinv.sessions i x hx hearly
    unfold Demand at hdemand
    rw [hreturned] at hdemand
    obtain ⟨hmem, hdone⟩ := hdemand rfl
    rcases hsafe hreturned with hfull | hlast
    · exact hdone hfull
    · by_contra hopen
      exact hopen (hlast i (hmem hopen) x hx hearly)

theorem no_cut_work_sample :
    ∃ s, run (State.step "SIGTERM" (10^30) (10^9)) .start fullRun = some s ∧
      (NoCutWork s ↔ LastLookSafe s) := by
  have hrun : run (State.step "SIGTERM" (10^30) (10^9)) .start fullRun =
      some ⟨drainPoll, 0, 0, 0, [⟨.done, true⟩], false, .returned 0, some (10^9), 2, true,
        some drainPoll, []⟩ := by
    decide +kernel
  exact ⟨_, hrun, no_cut_work_iff _ _ _ _ _ hrun⟩

/-- Status 0, and the tail of the session is cut. -/
theorem gap_session_cut :
    ¬ ∀ signal clockEnd drain events s, run (State.step signal clockEnd drain) .start events = some s →
      NoCutWork s := by
  intro h
  have hrun : run (State.step "SIGTERM" (10^30) 0) .start gapRun =
      some ⟨0, 0, 0, 0, [⟨.gap 0, true⟩], false, .returned 0, some 0, 1, true, none, [0]⟩ := by
    decide +kernel
  have hdone := h _ _ _ _ _ hrun rfl 0 ⟨.gap 0, true⟩ rfl rfl
  exact absurd hdone nofun

end CtAgent.Channel.Shutdown
