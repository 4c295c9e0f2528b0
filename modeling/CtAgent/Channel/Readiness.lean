import CtAgent.Lib.History

/-! The health of a channel member: the tickets its counters count, taken and dropped by any number of
tasks, and a probe that loads them one after the other in between (channel_run/health.rs). Times are Unix
seconds. -/
namespace CtAgent.Channel.Health
open CtAgent.Lib

def readyGraceSecs : ℕ := 15

/-- One counter each. -/
inductive Kind
  | established | parked | serving | forwardStreams | quicTails
  deriving DecidableEq, Repr

/-- A drop with a stamp reads the clock, stores what it read and then takes the unit back; `ended` is what it
read. -/
inductive TicketPhase
  | held
  | clocked (ended : ℕ)
  | stamped (ended : ℕ)
  | dropped (ended : Option ℕ)
  deriving DecidableEq, Repr

structure Ticket where
  kind : Kind
  stamp : Bool
  phase : TicketPhase := .held
  deriving DecidableEq, Repr

/-- How far a probe has come, with the clock it read first. `known` is for the statement: how many tickets
there were when it began. -/
inductive Probe
  | idle
  | clock (now known : ℕ)
  | running (now known : ℕ)
  | noSession (now known : ℕ)
  | noPark (now known : ℕ)
  | parkEnded (now known parkEnded : ℕ)
  | answered (now known : ℕ) (r : Except String String)
  deriving DecidableEq, Repr

/-- `ChannelHealth` with the tickets out on it and a probe of a member that is the accept side or not. -/
structure State where
  now : ℕ
  count : Kind → ℕ := fun _ => 0
  sessionEndedAt : ℕ := 0
  parkEndedAt : ℕ := 0
  stopping : Bool := false
  tickets : List Ticket := []
  probe : Probe := .idle

inductive Event
  | tick (d : ℕ)
  | take (kind : Kind)
  | answer (i : ℕ) (held : Bool)
  | drop (i : ℕ)
  | store (i : ℕ)
  | release (i : ℕ)
  | setStopping
  | probe

namespace State

def stampOf (s : State) (kind : Kind) (at_ : ℕ) : State :=
  match kind with
  | .established => { s with sessionEndedAt := at_ }
  | .parked => { s with parkEndedAt := at_ }
  | _ => s

def put (s : State) (i : ℕ) (c : Ticket) : State := { s with tickets := s.tickets.set i c }

def waiting (accept : Bool) : String :=
  if accept then "no session established and not parked" else "no session established"

/-- The end of `readiness_at`, behind its last load. -/
def lastEnd (accept : Bool) (now last : ℕ) : Except String String :=
  if last = 0 then .error (waiting accept ++ " yet")
  else
    let ago := now - last
    if ago < readyGraceSecs then
      .ok ("between sessions (the last one ended " ++ toString ago ++ "s ago, grace " ++
        toString readyGraceSecs ++ "s)")
    else .error (waiting accept ++ " for " ++ toString ago ++ "s")

/-- The next load of `readiness_at`. -/
def load (accept : Bool) (s : State) : Probe → Probe
  | .idle => .clock s.now s.tickets.length
  | .answered _ _ _ => .clock s.now s.tickets.length
  | .clock now known => if s.stopping then .answered now known (.error "shutting down") else .running now known
  | .running now known =>
    if 0 < s.count .established then
      .answered now known (.ok (toString (s.count .established) ++ " session(s) established"))
    else if accept then .noSession now known
    else .parkEnded now known 0
  | .noSession now known =>
    if 0 < s.count .parked then .answered now known (.ok "parked at the edge, waiting for a peer")
    else .noPark now known
  | .noPark now known => .parkEnded now known s.parkEndedAt
  | .parkEnded now known parkEnded => .answered now known (lastEnd accept now (max s.sessionEndedAt parkEnded))

def step (accept : Bool) (s : State) : Event → Option State
  | .tick d => some { s with now := s.now + d }
  -- only a session's ticket is taken with its stamp
  | .take kind => some { s with
      count := Function.update s.count kind (s.count kind + 1)
      tickets := s.tickets ++ [{ kind, stamp := kind = .established }] }
  -- a pairing or a park expiry: the edge held the park
  | .answer i held =>
    match s.tickets[i]? with
    | some c =>
      if c.kind = .parked ∧ c.phase = .held then some (s.put i { c with stamp := held }) else none
    | none => none
  | .drop i =>
    match s.tickets[i]? with
    | some c =>
      if c.phase ≠ .held then none
      else if c.stamp then some (s.put i { c with phase := .clocked s.now })
      else some { s.put i { c with phase := .dropped none } with
        count := Function.update s.count c.kind (s.count c.kind - 1) }
    | none => none
  | .store i =>
    match s.tickets[i]? with
    | some c =>
      match c.phase with
      | .clocked ended => some ((s.stampOf c.kind ended).put i { c with phase := .stamped ended })
      | _ => none
    | none => none
  | .release i =>
    match s.tickets[i]? with
    | some c =>
      match c.phase with
      | .stamped ended => some { s.put i { c with phase := .dropped (some ended) } with
          count := Function.update s.count c.kind (s.count c.kind - 1) }
      | _ => none
    | none => none
  | .setStopping => some { s with stopping := true }
  | .probe => some { s with probe := s.load accept s.probe }

end State

/-- When a ticket read the clock for its stamp. -/
def Ticket.ended (c : Ticket) : Option ℕ :=
  match c.phase with
  | .held => none
  | .clocked ended => some ended
  | .stamped ended => some ended
  | .dropped ended => ended

/-- It is still counted. -/
def Ticket.alive (c : Ticket) : Bool :=
  match c.phase with
  | .dropped _ => false
  | _ => true

/-- Each drop is through at most `lag` seconds after it read the clock. -/
def State.prompt (lag : ℕ) (s : State) : Event → Bool
  | .tick d => s.tickets.all (fun c => !c.alive || c.ended.all (fun ended => decide (s.now + d ≤ ended + lag)))
  | _ => true

/-- `slack` seconds behind a clock that reads `now` the ticket is held, or its end is less than the grace
ago. -/
def Ticket.recent (c : Ticket) (now slack : ℕ) : Bool :=
  match c.phase with
  | .held => true
  | _ => c.ended.any (fun ended => decide (now + slack < ended + readyGraceSecs))

/-- A ticket that makes its member ready. -/
def Ticket.counts (c : Ticket) (accept : Bool) : Bool := c.kind == .established || accept && c.kind == .parked

/-- Its stamp is stored. -/
def Ticket.stored (c : Ticket) : Option ℕ :=
  match c.phase with
  | .stamped ended => some ended
  | .dropped ended => ended
  | _ => none

section
variable {accept : Bool} {s t : State} {e : Event} {i : ℕ} {c : Ticket}

/-- The steps. -/
inductive State.Step (accept : Bool) (s : State) : Event → State → Prop
  | tick (d : ℕ) : s.Step accept (.tick d) { s with now := s.now + d }
  | take (kind : Kind) : s.Step accept (.take kind) { s with
      count := Function.update s.count kind (s.count kind + 1)
      tickets := s.tickets ++ [{ kind, stamp := kind = .established }] }
  | answer (i : ℕ) (c : Ticket) (held : Bool) (hc : s.tickets[i]? = some c) (hkind : c.kind = .parked)
      (hheld : c.phase = .held) : s.Step accept (.answer i held) (s.put i { c with stamp := held })
  | clock (i : ℕ) (c : Ticket) (hc : s.tickets[i]? = some c) (hheld : c.phase = .held)
    (hstamp : c.stamp = true) :
    s.Step accept (.drop i) (s.put i { c with phase := .clocked s.now })
  | store (i : ℕ) (c : Ticket) (ended : ℕ) (hc : s.tickets[i]? = some c)
    (hclocked : c.phase = .clocked ended) :
    s.Step accept (.store i) ((s.stampOf c.kind ended).put i { c with phase := .stamped ended })
  | unstamped (i : ℕ) (c : Ticket) (hc : s.tickets[i]? = some c) (hheld : c.phase = .held)
      (hstamp : c.stamp = false) : s.Step accept (.drop i) { s.put i { c with phase := .dropped none } with
        count := Function.update s.count c.kind (s.count c.kind - 1) }
  | release (i : ℕ) (c : Ticket) (ended : ℕ) (hc : s.tickets[i]? = some c)
    (hstamped : c.phase = .stamped ended) :
    s.Step accept (.release i) { s.put i { c with phase := .dropped (some ended) } with
      count := Function.update s.count c.kind (s.count c.kind - 1) }
  | setStopping : s.Step accept .setStopping { s with stopping := true }
  | probe : s.Step accept .probe { s with probe := s.load accept s.probe }

theorem State.step_cases (h : s.step accept e = some t) : s.Step accept e t := by
  cases e with
  | tick d =>
    cases h
    exact .tick d
  | take kind =>
    cases h
    exact .take kind
  | setStopping =>
    cases h
    exact .setStopping
  | probe =>
    cases h
    exact .probe
  | answer i held =>
    simp only [State.step] at h
    split at h
    · rename_i c hc
      split at h
      · rename_i hok
        cases h
        exact .answer i c held hc hok.1 hok.2
      · cases h
    · cases h
  | drop i =>
    simp only [State.step] at h
    split at h
    · rename_i c hc
      split at h
      · cases h
      · rename_i hheld
        have hheld : c.phase = .held := not_not.mp hheld
        split at h
        · rename_i hstamp
          cases h
          exact .clock i c hc hheld hstamp
        · rename_i hstamp
          cases h
          exact .unstamped i c hc hheld (Bool.eq_false_iff.mpr hstamp)
    · cases h
  | store i =>
    simp only [State.step] at h
    split at h
    · rename_i c hc
      split at h
      · rename_i ended hclocked
        cases h
        exact .store i c ended hc hclocked
      · cases h
    · cases h
  | release i =>
    simp only [State.step] at h
    split at h
    · rename_i c hc
      split at h
      · rename_i ended hstamped
        cases h
        exact .release i c ended hc hstamped
      · cases h
    · cases h

@[simp] theorem State.stampOf_tickets (s : State) (kind : Kind) (at_ : ℕ) :
    (s.stampOf kind at_).tickets = s.tickets := by
  cases kind <;> rfl

@[simp] theorem State.stampOf_now (s : State) (kind : Kind) (at_ : ℕ) : (s.stampOf kind at_).now = s.now := by
  cases kind <;> rfl

@[simp] theorem State.stampOf_count (s : State) (kind : Kind) (at_ : ℕ) :
    (s.stampOf kind at_).count = s.count := by
  cases kind <;> rfl

@[simp] theorem State.stampOf_probe (s : State) (kind : Kind) (at_ : ℕ) :
    (s.stampOf kind at_).probe = s.probe := by
  cases kind <;> rfl

/-- What a step makes of a ticket: it keeps its kind and its stamped end, and a dropped one stays. -/
structure Ticket.Later (c c' : Ticket) : Prop where
  kind : c'.kind = c.kind
  dropped : c.alive = false → c' = c
  ended : ∀ at_, c.ended = some at_ → c'.ended = some at_

theorem Ticket.Later.refl (c : Ticket) : c.Later c := ⟨rfl, fun _ => rfl, fun _ h => h⟩

/-- What a step makes of a ticket that was there, and where a ticket that is there comes from. -/
theorem State.Step.later (h : s.Step accept e t) (hc : s.tickets[i]? = some c) :
    ∃ c', t.tickets[i]? = some c' ∧ c.Later c' := by
  have hset (j : ℕ) (x y : Ticket) (hx : s.tickets[j]? = some x) (hxy : x.Later y) :
      ∃ c', (s.tickets.set j y)[i]? = some c' ∧ c.Later c' := by
    by_cases hij : j = i
    · subst hij
      obtain rfl : x = c := Option.some.inj (hx.symm.trans hc)
      exact ⟨y, List.getElem?_set_self (List.getElem?_eq_some_iff.mp hc).1, hxy⟩
    · exact ⟨c, by rw [List.getElem?_set_ne hij, hc], .refl c⟩
  cases h with
  | take kind => exact ⟨c, by rw [List.getElem?_append_left (List.getElem?_eq_some_iff.mp hc).1, hc], .refl c⟩
  | answer j x held hx hkind hheld =>
    exact hset j x _ hx ⟨rfl, by simp [Ticket.alive, hheld], by simp [Ticket.ended, hheld]⟩
  | clock j x hx hheld hstamp =>
    exact hset j x _ hx ⟨rfl, by simp [Ticket.alive, hheld], by simp [Ticket.ended, hheld]⟩
  | store j x ended hx hclocked =>
    have := hset j x { x with phase := .stamped ended } hx
      ⟨rfl, by simp [Ticket.alive, hclocked], by simp [Ticket.ended, hclocked]⟩
    simpa only [State.put, State.stampOf_tickets] using this
  | unstamped j x hx hheld hstamp =>
    exact hset j x _ hx ⟨rfl, by simp [Ticket.alive, hheld], by simp [Ticket.ended, hheld]⟩
  | release j x ended hx hstamped =>
    exact hset j x _ hx ⟨rfl, by simp [Ticket.alive, hstamped], by simp [Ticket.ended, hstamped]⟩
  | _ => exact ⟨c, hc, .refl c⟩

end

/-- What a ticket says at a clock and two stamps: a later store may have put an earlier reading over its own,
but none that is more than `lag` earlier. -/
structure Ticket.Ok (lag now sessionEndedAt parkEndedAt : ℕ) (c : Ticket) : Prop where
  stamps : c.kind = .established → (c.phase = .held → c.stamp = true) ∧ c.phase ≠ .dropped none
  ended : ∀ at_, c.ended = some at_ → 0 < at_ ∧ at_ ≤ now
  prompt : c.alive = true → ∀ at_, c.ended = some at_ → now ≤ at_ + lag
  session : c.kind = .established → ∀ at_, c.stored = some at_ → 0 < sessionEndedAt ∧
    at_ ≤ sessionEndedAt + lag
  park : c.kind = .parked → ∀ at_, c.stored = some at_ → 0 < parkEndedAt ∧ at_ ≤ parkEndedAt + lag

theorem Ticket.ended_of_stored {c : Ticket} {at_ : ℕ} (h : c.stored = some at_) : c.ended = some at_ := by
  unfold Ticket.stored at h
  unfold Ticket.ended
  cases hph : c.phase with
  | held => simp [hph] at h
  | clocked ended => simp [hph] at h
  | stamped ended => simpa [hph] using h
  | dropped ended => simpa [hph] using h

/-- The counters and the stamps say what the tickets say. -/
structure Books (lag : ℕ) (s : State) : Prop where
  now : 0 < s.now
  count : ∀ kind, s.count kind = s.tickets.countP (fun c => c.kind == kind && c.alive)
  tickets : ∀ c ∈ s.tickets, c.Ok lag s.now s.sessionEndedAt s.parkEndedAt
  lastSession : s.sessionEndedAt = 0 ∨ ∃ c ∈ s.tickets, c.kind = .established ∧ c.ended = some s.sessionEndedAt
  lastPark : s.parkEndedAt = 0 ∨ ∃ c ∈ s.tickets, c.kind = .parked ∧ c.ended = some s.parkEndedAt

/-- A ticket stamped at a time stays one. -/
theorem State.Step.stamped_later {accept : Bool} {s t : State} {e : Event}
    (h : s.Step accept e t) {kind : Kind}
    {at_ : ℕ} (hs : at_ = 0 ∨ ∃ c ∈ s.tickets, c.kind = kind ∧ c.ended = some at_) :
    at_ = 0 ∨ ∃ c ∈ t.tickets, c.kind = kind ∧ c.ended = some at_ := by
  rcases hs with hzero | ⟨c, hc, hk, he⟩
  · exact .inl hzero
  · obtain ⟨i, hi⟩ := List.mem_iff_getElem?.mp hc
    obtain ⟨c', hc', hlater⟩ := h.later hi
    exact .inr ⟨c', List.mem_of_getElem? hc', hlater.kind.trans hk, hlater.ended at_ he⟩

/-- A unit given back is the one of the ticket that goes. -/
theorem count_release {s : State} {i : ℕ} {c : Ticket} (hc : s.tickets[i]? = some c) (halive : c.alive = true)
    (hcount : ∀ kind, s.count kind = s.tickets.countP (fun c => c.kind == kind && c.alive)) (at_ : Option ℕ)
    (kind : Kind) : Function.update s.count c.kind (s.count c.kind - 1) kind =
      (s.tickets.set i { c with phase := .dropped at_ }).countP (fun c => c.kind == kind && c.alive) := by
  have hput := countP_put hc (fun c => c.kind == kind && c.alive) { c with phase := .dropped at_ }
  have hgone : (c.kind == kind && Ticket.alive { c with phase := .dropped at_ }) = false := by
    simp [Ticket.alive]
  rw [hgone, halive, Bool.and_true] at hput
  by_cases hk : c.kind = kind
  · subst hk
    rw [Function.update_self, hcount]
    simp only [beq_self_eq_true, if_true, Bool.false_eq_true, if_false] at hput
    omega
  · rw [Function.update_of_ne (Ne.symm hk), hcount]
    simp only [beq_iff_eq, hk, Bool.false_eq_true, if_false] at hput
    omega

/-- A change of a ticket that is counted before and behind it. -/
theorem count_keep {s : State} {i : ℕ} {c : Ticket} (hc : s.tickets[i]? = some c) (c' : Ticket)
    (hkind : c'.kind = c.kind) (halive : c.alive = true) (halive' : c'.alive = true)
    (hcount : ∀ kind, s.count kind = s.tickets.countP (fun c => c.kind == kind && c.alive)) (kind : Kind) :
    s.count kind = (s.tickets.set i c').countP (fun c => c.kind == kind && c.alive) := by
  have hput := countP_put hc (fun c => c.kind == kind && c.alive) c'
  rw [hkind, halive, halive'] at hput
  rw [hcount]
  omega

/-- A stamp that is stored promptly is no more than `lag` behind any stored before it. -/
theorem Ticket.Ok.store {lag now sessionEndedAt parkEndedAt ended : ℕ} {c : Ticket}
    (h : c.Ok lag now sessionEndedAt parkEndedAt) (hpos : 0 < ended)
    (hprompt : now ≤ ended + lag) (kind : Kind) :
    c.Ok lag now (if kind = .established then ended else sessionEndedAt)
      (if kind = .parked then ended else parkEndedAt) := by
  have hstored (at_ : ℕ) (ha : c.stored = some at_) : 0 < ended ∧ at_ ≤ ended + lag :=
    ⟨hpos, (h.ended at_ (ended_of_stored ha)).2.trans hprompt⟩
  refine ⟨h.stamps, h.ended, h.prompt, fun hk at_ ha => ?_, fun hk at_ ha => ?_⟩
  · split
    · exact hstored at_ ha
    · exact h.session hk at_ ha
  · split
    · exact hstored at_ ha
    · exact h.park hk at_ ha

theorem State.stampOf_sessionEndedAt (s : State) (kind : Kind) (at_ : ℕ) :
    (s.stampOf kind at_).sessionEndedAt = if kind = .established then at_ else s.sessionEndedAt := by
  cases kind <;> rfl

theorem State.stampOf_parkEndedAt (s : State) (kind : Kind) (at_ : ℕ) :
    (s.stampOf kind at_).parkEndedAt = if kind = .parked then at_ else s.parkEndedAt := by
  cases kind <;> rfl

/-- The ticket whose stamp is stored. -/
theorem Ticket.Ok.stored_own {lag now sessionEndedAt parkEndedAt ended : ℕ} {c : Ticket}
    (h : c.Ok lag now sessionEndedAt parkEndedAt) (hclocked : c.phase = .clocked ended) :
    Ticket.Ok lag now (if c.kind = .established then ended else sessionEndedAt)
      (if c.kind = .parked then ended else parkEndedAt) { c with phase := .stamped ended } := by
  have hended : c.ended = some ended := by simp [Ticket.ended, hclocked]
  have hpos : 0 < ended := (h.ended ended hended).1
  have hat (at_ : ℕ) (ha : Ticket.stored { c with phase := .stamped ended } = some at_) : ended = at_ := by
    simpa [Ticket.stored] using ha
  refine ⟨by simp, ?_, ?_, fun hk at_ ha => ?_, fun hk at_ ha => ?_⟩
  · intro at_ ha
    exact h.ended at_ (hended.trans ha)
  · intro _ at_ ha
    exact h.prompt (by simp [Ticket.alive, hclocked]) at_ (hended.trans ha)
  · rw [if_pos hk, hat at_ ha]
    exact ⟨hat at_ ha ▸ hpos, Nat.le_add_right _ _⟩
  · rw [if_pos hk, hat at_ ha]
    exact ⟨hat at_ ha ▸ hpos, Nat.le_add_right _ _⟩

section
variable {accept : Bool} {lag : ℕ} {s t : State} {e : Event} {i ended : ℕ} {c : Ticket}

theorem Books.take (h : Books lag s) (kind : Kind) :
    Books lag { s with
      count := Function.update s.count kind (s.count kind + 1)
      tickets := s.tickets ++ [{ kind, stamp := kind = .established }] } := by
  have hstep : s.Step false (.take kind) _ := .take kind
  refine ⟨h.now, ?_, ?_, hstep.stamped_later h.lastSession, hstep.stamped_later h.lastPark⟩
  · intro k
    rw [countP_push]
    by_cases hk : kind = k
    · subst hk
      simp [h.count, Ticket.alive]
    · simp [h.count, Function.update_of_ne (Ne.symm hk), hk]
  · intro c hc
    rcases List.mem_append.mp hc with hc | hc
    · exact h.tickets c hc
    · obtain rfl := List.mem_singleton.mp hc
      exact ⟨by simp, by simp [Ticket.ended], by simp [Ticket.ended], by simp [Ticket.stored],
        by simp [Ticket.stored]⟩

/-- The one step that changes a stamp. -/
theorem Books.store (h : Books lag s) (hc : s.tickets[i]? = some c) (hclocked : c.phase = .clocked ended) :
    Books lag ((s.stampOf c.kind ended).put i { c with phase := .stamped ended }) := by
  have hstep : s.Step false (.store i) _ := .store i c ended hc hclocked
  have hls := hstep.stamped_later h.lastSession
  have hlp := hstep.stamped_later h.lastPark
  have hold := h.tickets c (List.mem_of_getElem? hc)
  have hended : c.ended = some ended := by simp [Ticket.ended, hclocked]
  have hpos : 0 < ended := (hold.ended ended hended).1
  have hin : s.now ≤ ended + lag := hold.prompt (by simp [Ticket.alive, hclocked]) ended hended
  have hmem : { c with phase := .stamped ended } ∈ s.tickets.set i { c with phase := .stamped ended } :=
    List.mem_of_getElem? (List.getElem?_set_self (List.getElem?_eq_some_iff.mp hc).1)
  have hcount := count_keep hc { c with phase := .stamped ended } rfl (by simp [Ticket.alive, hclocked])
    (by simp [Ticket.alive]) h.count
  simp only [State.put, State.stampOf_tickets] at hls hlp
  refine ⟨by simpa [State.put] using h.now, ?_, ?_, ?_, ?_⟩
  · simpa only [State.put, State.stampOf_count, State.stampOf_tickets] using hcount
  · simp only [State.put, State.stampOf_tickets, State.stampOf_now, State.stampOf_sessionEndedAt,
      State.stampOf_parkEndedAt]
    intro x hx
    rcases List.mem_or_eq_of_mem_set hx with hx | rfl
    · exact (h.tickets x hx).store hpos hin c.kind
    · exact hold.stored_own hclocked
  · simp only [State.put, State.stampOf_tickets, State.stampOf_sessionEndedAt]
    split
    · rename_i hk
      exact .inr ⟨_, hmem, hk, rfl⟩
    · exact hls
  · simp only [State.put, State.stampOf_tickets, State.stampOf_parkEndedAt]
    split
    · rename_i hk
      exact .inr ⟨_, hmem, hk, rfl⟩
    · exact hlp

theorem Books.step (h : Books lag s)
    (ht : guarded (State.step accept) (State.prompt lag) s e = some t) : Books lag t := by
  obtain ⟨hprompt, ht⟩ := guarded_eq_some.mp ht
  have hstep := State.step_cases ht
  have hls := hstep.stamped_later h.lastSession
  have hlp := hstep.stamped_later h.lastPark
  have hset (i : ℕ) (y : Ticket) (hy : y.Ok lag s.now s.sessionEndedAt s.parkEndedAt) :
      ∀ c ∈ s.tickets.set i y, c.Ok lag s.now s.sessionEndedAt s.parkEndedAt := by
    intro c hc
    rcases List.mem_or_eq_of_mem_set hc with hc | rfl
    · exact h.tickets c hc
    · exact hy
  cases hstep with
  | take kind => exact h.take kind
  | store i c ended hc hclocked => exact h.store hc hclocked
  | tick d =>
    refine ⟨Nat.lt_of_lt_of_le h.now (Nat.le_add_right _ _), h.count, ?_, hls, hlp⟩
    intro c hc
    have hold := h.tickets c hc
    refine ⟨hold.stamps, fun at_ ha => ?_, fun halive at_ ha => ?_, hold.session, hold.park⟩
    · exact ⟨(hold.ended at_ ha).1, (hold.ended at_ ha).2.trans (Nat.le_add_right _ _)⟩
    · have hlets := List.all_eq_true.mp hprompt c hc
      simpa [halive, ha] using hlets
  | answer i c held hc hkind hheld =>
    refine ⟨h.now, ?_, hset i _ ?_, hls, hlp⟩
    · exact count_keep hc _ rfl (by simp [Ticket.alive, hheld]) (by simp [Ticket.alive, hheld]) h.count
    · exact ⟨by simp [hkind], by simp [Ticket.ended, hheld], by simp [Ticket.ended, hheld],
        by simp [Ticket.stored, hheld], by simp [Ticket.stored, hheld]⟩
  | clock i c hc hheld hstamp =>
    refine ⟨h.now, ?_, hset i _ ?_, hls, hlp⟩
    · exact count_keep hc _ rfl (by simp [Ticket.alive, hheld]) (by simp [Ticket.alive]) h.count
    · have hnow (at_ : ℕ) (ha : Ticket.ended { c with phase := .clocked s.now } = some at_) : s.now = at_ := by
        simpa [Ticket.ended] using ha
      refine ⟨by simp, fun at_ ha => ?_, fun _ at_ ha => ?_, by simp [Ticket.stored], by simp [Ticket.stored]⟩
      · rw [← hnow at_ ha]
        exact ⟨h.now, Nat.le_refl _⟩
      · rw [← hnow at_ ha]
        exact Nat.le_add_right _ _
  | unstamped i c hc hheld hstamp =>
    refine ⟨h.now, count_release hc (by simp [Ticket.alive, hheld]) h.count none, hset i _ ?_, hls, hlp⟩
    have hne : c.kind ≠ .established := by
      intro hk
      have := ((h.tickets c (List.mem_of_getElem? hc)).stamps hk).1 hheld
      rw [hstamp] at this
      cases this
    exact ⟨fun hk => absurd hk hne, by simp [Ticket.ended], by simp [Ticket.ended], by simp [Ticket.stored],
      by simp [Ticket.stored]⟩
  | release i c ended hc hstamped =>
    refine ⟨h.now, count_release hc (by simp [Ticket.alive, hstamped]) h.count (some ended),
      hset i _ ?_, hls, hlp⟩
    have hold := h.tickets c (List.mem_of_getElem? hc)
    have hended : c.ended = some ended := by simp [Ticket.ended, hstamped]
    have hstored : c.stored = some ended := by simp [Ticket.stored, hstamped]
    refine ⟨by simp, fun at_ ha => ?_, by simp [Ticket.alive], fun hk at_ ha => ?_, fun hk at_ ha => ?_⟩
    · exact hold.ended at_ (hended.trans ha)
    · exact hold.session hk at_ (hstored.trans ha)
    · exact hold.park hk at_ (hstored.trans ha)
  | setStopping => exact ⟨h.now, h.count, h.tickets, hls, hlp⟩
  | probe => exact ⟨h.now, h.count, h.tickets, hls, hlp⟩

end

/-- The tickets of a kind that were there when the probe began are given back. -/
def GivenBack (s : State) (known : ℕ) (kind : Kind) : Prop :=
  ∀ i < known, ∀ c, s.tickets[i]? = some c → c.kind = kind → c.alive = false

/-- A stamp the probe has loaded is set, and at most `lag` earlier than the end of any of them. -/
def EndedBy (lag : ℕ) (s : State) (known : ℕ) (kind : Kind) (last : ℕ) : Prop :=
  ∀ i < known, ∀ c, s.tickets[i]? = some c → c.kind = kind → ∀ at_, c.stored = some at_ → 0 < last ∧
    at_ ≤ last + lag

/-- What the loads so far tell of the tickets. -/
def Seen (accept : Bool) (lag : ℕ) (s : State) : Probe → Prop
  | .idle => True
  | .answered _ _ _ => True
  | .clock now known => now ≤ s.now ∧ known ≤ s.tickets.length
  | .running now known => now ≤ s.now ∧ known ≤ s.tickets.length
  | .noSession now known => (now ≤ s.now ∧ known ≤ s.tickets.length) ∧ accept = true ∧
    GivenBack s known .established
  | .noPark now known => (now ≤ s.now ∧ known ≤ s.tickets.length) ∧ accept = true ∧
    GivenBack s known .established ∧ GivenBack s known .parked
  | .parkEnded now known last => (now ≤ s.now ∧ known ≤ s.tickets.length) ∧ GivenBack s known .established ∧
    (accept = true → GivenBack s known .parked ∧ EndedBy lag s known .parked last) ∧
      (last = 0 ∨ accept = true ∧ ∃ c ∈ s.tickets, c.kind = .parked ∧ c.ended = some last)

section
variable {accept : Bool} {lag : ℕ} {s t : State} {e : Event} {known : ℕ} {kind : Kind}

theorem State.Step.mono (h : s.Step accept e t) : s.now ≤ t.now ∧ s.tickets.length ≤ t.tickets.length := by
  cases h with
  | tick d => exact ⟨Nat.le_add_right _ _, Nat.le_refl _⟩
  | take kind => exact ⟨Nat.le_refl _, by simp⟩
  | store i c ended hc hclocked =>
    simp only [State.put, State.stampOf_now, State.stampOf_tickets, List.length_set]
    exact ⟨Nat.le_refl _, Nat.le_refl _⟩
  | clock i c hc hheld hstamp => exact ⟨Nat.le_refl _, by simp [State.put]⟩
  | answer i c held hc hkind hheld => exact ⟨Nat.le_refl _, by simp [State.put]⟩
  | unstamped i c hc hheld hstamp => exact ⟨Nat.le_refl _, by simp [State.put]⟩
  | release i c ended hc hstamped => exact ⟨Nat.le_refl _, by simp [State.put]⟩
  | _ => exact ⟨Nat.le_refl _, Nat.le_refl _⟩

/-- A ticket the probe knows, as it was before the step. -/
theorem State.Step.earlier (h : s.Step accept e t) {i : ℕ} (hi : i < s.tickets.length) {c' : Ticket}
    (hc' : t.tickets[i]? = some c') : ∃ c, s.tickets[i]? = some c ∧ c.Later c' := by
  have hc := List.getElem?_eq_getElem hi
  obtain ⟨c'', hc'', hlater⟩ := h.later hc
  obtain rfl : c' = c'' := Option.some.inj (hc'.symm.trans hc'')
  exact ⟨_, hc, hlater⟩

theorem GivenBack.step (hg : GivenBack s known kind) (hk : known ≤ s.tickets.length) (h : s.Step accept e t) :
    GivenBack t known kind := by
  intro i hi c' hc' hkind
  obtain ⟨c, hc, hlater⟩ := h.earlier (Nat.lt_of_lt_of_le hi hk) hc'
  have hgone : c.alive = false := hg i hi c hc (hlater.kind ▸ hkind)
  rw [hlater.dropped hgone, hgone]

theorem EndedBy.step {last : ℕ} (he : EndedBy lag s known kind last) (hg : GivenBack s known kind)
    (hk : known ≤ s.tickets.length) (h : s.Step accept e t) : EndedBy lag t known kind last := by
  intro i hi c' hc' hkind
  obtain ⟨c, hc, hlater⟩ := h.earlier (Nat.lt_of_lt_of_le hi hk) hc'
  have hkind : c.kind = kind := hlater.kind ▸ hkind
  rw [hlater.dropped (hg i hi c hc hkind)]
  exact he i hi c hc hkind

/-- Other tasks take nothing back of what was seen. -/
theorem Seen.step {p : Probe} (hp : Seen accept lag s p) (h : s.Step accept e t) : Seen accept lag t p := by
  obtain ⟨hnow, hlen⟩ := h.mono
  cases p with
  | idle => trivial
  | answered now known r => trivial
  | clock now known => exact ⟨hp.1.trans hnow, hp.2.trans hlen⟩
  | running now known => exact ⟨hp.1.trans hnow, hp.2.trans hlen⟩
  | noSession now known =>
    obtain ⟨⟨h1, h2⟩, hacc, hg⟩ := hp
    exact ⟨⟨h1.trans hnow, h2.trans hlen⟩, hacc, hg.step h2 h⟩
  | noPark now known =>
    obtain ⟨⟨h1, h2⟩, hacc, hg, hgp⟩ := hp
    exact ⟨⟨h1.trans hnow, h2.trans hlen⟩, hacc, hg.step h2 h, hgp.step h2 h⟩
  | parkEnded now known last =>
    obtain ⟨⟨h1, h2⟩, hg, hpark, hlast⟩ := hp
    refine ⟨⟨h1.trans hnow, h2.trans hlen⟩, hg.step h2 h, ?_, ?_⟩
    · intro hacc
      obtain ⟨hgp, he⟩ := hpark hacc
      exact ⟨hgp.step h2 h, he.step hgp h2 h⟩
    · rcases hlast with hzero | ⟨hacc, hc⟩
      · exact .inl hzero
      · exact (h.stamped_later (.inr hc)).imp_right (fun hc => ⟨hacc, hc⟩)

/-- A counter that reads zero: every ticket of its kind is given back. -/
theorem Books.zero (h : Books lag s) (hzero : ¬ 0 < s.count kind) (known : ℕ) : GivenBack s known kind := by
  intro i _ c hc hkind
  have hnone := h.count kind
  rw [Nat.eq_zero_of_not_pos hzero, eq_comm, List.countP_eq_zero] at hnone
  have := hnone c (List.mem_of_getElem? hc)
  simpa [hkind] using this

/-- A counter above zero: a ticket of its kind is out, and its end is not older than the grace. -/
theorem Books.positive (h : Books lag s) (hlag : lag < readyGraceSecs) (hpos : 0 < s.count kind) {now : ℕ}
    (hnow : now ≤ s.now) : ∃ c ∈ s.tickets, c.kind = kind ∧ c.recent now 0 = true := by
  rw [h.count, List.countP_pos_iff] at hpos
  obtain ⟨c, hc, hk⟩ := hpos
  rw [Bool.and_eq_true, beq_iff_eq] at hk
  refine ⟨c, hc, hk.1, ?_⟩
  have hprompt := (h.tickets c hc).prompt hk.2
  unfold Ticket.recent
  cases hph : c.phase with
  | held => rfl
  | clocked at_ | stamped at_ =>
    have hended : c.ended = some at_ := by simp [Ticket.ended, hph]
    have := hprompt at_ hended
    simp only [hended, Option.any_some, decide_eq_true_eq]
    omega
  | dropped at_ =>
    have halive := hk.2
    simp [Ticket.alive, hph] at halive

/-- The next load, and what it adds. -/
theorem Seen.load (h : Books lag s) (hp : Seen accept lag s s.probe) :
    Seen accept lag s (s.load accept s.probe) := by
  cases hprobe : s.probe with
  | idle => exact ⟨Nat.le_refl _, Nat.le_refl _⟩
  | answered now known r => exact ⟨Nat.le_refl _, Nat.le_refl _⟩
  | clock now known =>
    rw [hprobe] at hp
    simp only [State.load]
    split
    · trivial
    · exact hp
  | running now known =>
    rw [hprobe] at hp
    simp only [State.load]
    split
    · trivial
    · rename_i hzero
      split
      · rename_i hacc
        exact ⟨hp, hacc, h.zero hzero known⟩
      · rename_i hacc
        exact ⟨hp, h.zero hzero known, fun ha => absurd ha hacc, .inl rfl⟩
  | noSession now known =>
    rw [hprobe] at hp
    simp only [State.load]
    split
    · trivial
    · rename_i hzero
      exact ⟨hp.1, hp.2.1, hp.2.2, h.zero hzero known⟩
  | noPark now known =>
    rw [hprobe] at hp
    obtain ⟨hbase, hacc, hg, hgp⟩ := hp
    refine ⟨hbase, hg, fun _ => ⟨hgp, ?_⟩, h.lastPark.imp_right (fun hc => ⟨hacc, hc⟩)⟩
    intro i _ c hc hkind at_ ha
    exact (h.tickets c (List.mem_of_getElem? hc)).park hkind at_ ha
  | parkEnded now known last => trivial

/-- The last load: ready if and only if the last end it knows of is no older than the grace. -/
theorem lastEnd_ok (accept : Bool) (now last : ℕ) :
    (∃ why, State.lastEnd accept now last = .ok why) ↔ last ≠ 0 ∧ now < last + readyGraceSecs := by
  unfold State.lastEnd
  split
  · rename_i hzero
    simp [hzero]
  · rename_i hne
    dsimp only
    split
    · rename_i hgrace
      refine iff_of_true ⟨_, rfl⟩ ⟨hne, ?_⟩
      omega
    · rename_i hgrace
      refine iff_of_false (by simp) ?_
      rintro ⟨-, hlt⟩
      have hpos : 0 < readyGraceSecs := by decide
      omega

/-- A run keeps the books, and what the probe has loaded stays true of the tickets. -/
theorem books_seen {start : ℕ} (hstart : 0 < start) {es : List Event}
    (hrun : run (guarded (State.step accept) (State.prompt lag)) ({ now := start } : State) es = some s) :
    Books lag s ∧ Seen accept lag s s.probe := by
  refine run_invariant _ (fun s => Books lag s ∧ Seen accept lag s s.probe) ?_ es _ s ?_ hrun
  · intro s e t hs ht
    refine ⟨hs.1.step ht, ?_⟩
    have hstep := State.step_cases (guarded_eq_some.mp ht).2
    cases hstep with
    | probe =>
      have hprobe : s.Step accept .probe { s with probe := s.load accept s.probe } := .probe
      exact (Seen.load hs.1 hs.2).step hprobe
    | store i c ended hc hclocked =>
      simpa only [State.put, State.stampOf_probe] using hs.2.step (State.Step.store i c ended hc hclocked)
    | _ => exact hs.2.step (State.step_cases (guarded_eq_some.mp ht).2)
  · exact ⟨⟨hstart, fun _ => rfl, by simp, .inl rfl, .inl rfl⟩, trivial⟩

/-- A ticket given back before its counter was read: a stamp that was read behind it is at most `lag` earlier,
so one that is recent by as much makes the last end recent. -/
theorem Ticket.lastEnd_of_recent {c : Ticket} {now last : ℕ} (hgone : c.alive = false)
    (hrec : c.recent now lag = true)
    (hle : ∀ at_, c.stored = some at_ → 0 < last ∧ at_ ≤ last + lag) :
    last ≠ 0 ∧ now < last + readyGraceSecs := by
  cases hph : c.phase with
  | held | clocked at_ | stamped at_ => simp [Ticket.alive, hph] at hgone
  | dropped ended =>
    cases ended with
    | none => simp [Ticket.recent, Ticket.ended, hph] at hrec
    | some at_ =>
      have hstored : c.stored = some at_ := by simp [Ticket.stored, hph]
      obtain ⟨hset, hlate⟩ := hle at_ hstored
      simp only [Ticket.recent, Ticket.ended, hph, Option.any_some, decide_eq_true_eq] at hrec
      omega

/-- Every counter read zero: a ticket the probe could know of speaks through the stamps. -/
theorem Books.lastEnd_late {last now i : ℕ} {c : Ticket} (h : Books lag s)
    (hg : GivenBack s known .established)
    (hpark : accept = true → GivenBack s known .parked ∧ EndedBy lag s known .parked last) (hi : i < known)
    (hc : s.tickets[i]? = some c) (hcounts : c.counts accept = true) (hrec : c.recent now lag = true) :
    max s.sessionEndedAt last ≠ 0 ∧ now < max s.sessionEndedAt last + readyGraceSecs := by
  have hok := h.tickets c (List.mem_of_getElem? hc)
  simp only [Ticket.counts, Bool.or_eq_true, Bool.and_eq_true, beq_iff_eq] at hcounts
  rcases hcounts with hk | ⟨hacc, hk⟩
  · refine Ticket.lastEnd_of_recent (hg i hi c hc hk) hrec ?_
    intro at_ ha
    obtain ⟨hpos, hle⟩ := hok.session hk at_ ha
    omega
  · obtain ⟨hgp, he⟩ := hpark hacc
    refine Ticket.lastEnd_of_recent (hgp i hi c hc hk) hrec ?_
    intro at_ ha
    obtain ⟨hpos, hle⟩ := he i hi c hc hk at_ ha
    omega

/-- The later of the two stamps is the end of a ticket. -/
theorem Books.recent_of_lastEnd {last now : ℕ} (h : Books lag s)
    (hlast : last = 0 ∨ accept = true ∧ ∃ c ∈ s.tickets, c.kind = .parked ∧ c.ended = some last)
    (hne : max s.sessionEndedAt last ≠ 0) (hgrace : now < max s.sessionEndedAt last + readyGraceSecs) :
    ∃ c ∈ s.tickets, c.counts accept = true ∧ c.recent now 0 = true := by
  have hfound (c : Ticket) (at_ : ℕ) (he : c.ended = some at_) (hmax : max s.sessionEndedAt last = at_) :
      c.recent now 0 = true := by
    unfold Ticket.recent
    split
    · rfl
    · simp only [he, Option.any_some, decide_eq_true_eq]
      omega
  rcases Nat.le_total last s.sessionEndedAt with hle | hle
  · obtain ⟨c, hc, hk, he⟩ := h.lastSession.resolve_left (by omega)
    exact ⟨c, hc, by simp [Ticket.counts, hk], hfound c _ he (by omega)⟩
  · obtain ⟨hacc, c, hc, hk, he⟩ := hlast.resolve_left (by omega)
    exact ⟨c, hc, by simp [Ticket.counts, hk, hacc], hfound c _ he (by omega)⟩

/-- What a member answers to `/readyz`, whatever its tasks do between the loads of the probe, as long as each
drop is through at most `lag` seconds after it read the clock: ready, if a session (or, on the accept side, a
held park) that the probe could know of is there or ended less than the grace, short of `lag`, before the probe
read the clock, unless a shutdown has started; and only if there is one that ended less than the grace before.
A session that ends while the probe runs is never missed. -/
theorem readyz_follows (accept : Bool) (lag start : ℕ) (hlag : lag < readyGraceSecs) (hstart : 0 < start)
    (es : List Event) (s t : State)
    (hrun : run (guarded (State.step accept) (State.prompt lag)) ({ now := start } : State) es = some s)
    (ht : s.step accept .probe = some t) (now known : ℕ) (r : Except String String)
    (hr : t.probe = .answered now known r) :
    (s.stopping = false →
        (∃ i c, i < known ∧ s.tickets[i]? = some c ∧ c.counts accept = true ∧ c.recent now lag = true) →
        ∃ why, r = .ok why) ∧
      ((∃ why, r = .ok why) → ∃ c ∈ s.tickets, c.counts accept = true ∧ c.recent now 0 = true) := by
  obtain ⟨hbooks, hseen⟩ := books_seen hstart hrun
  obtain rfl := Option.some.inj ht
  change s.load accept s.probe = .answered now known r at hr
  cases hprobe : s.probe with
  | idle =>
    rw [hprobe] at hr
    cases hr
  | answered now' known' r' =>
    rw [hprobe] at hr
    cases hr
  | noPark now' known' =>
    rw [hprobe] at hr
    cases hr
  | clock now' known' =>
    rw [hprobe, State.load] at hr
    split at hr
    · rename_i hstopping
      cases hr
      refine ⟨fun hno => ?_, by simp⟩
      rw [hstopping] at hno
      cases hno
    · cases hr
  | running now' known' =>
    rw [hprobe] at hr hseen
    rw [State.load] at hr
    split at hr
    · rename_i hpos
      cases hr
      refine ⟨fun _ _ => ⟨_, rfl⟩, fun _ => ?_⟩
      obtain ⟨c, hc, hk, hrec⟩ := hbooks.positive hlag hpos hseen.1
      exact ⟨c, hc, by simp [Ticket.counts, hk], hrec⟩
    · split at hr <;> cases hr
  | noSession now' known' =>
    rw [hprobe] at hr hseen
    rw [State.load] at hr
    split at hr
    · rename_i hpos
      cases hr
      refine ⟨fun _ _ => ⟨_, rfl⟩, fun _ => ?_⟩
      obtain ⟨c, hc, hk, hrec⟩ := hbooks.positive hlag hpos hseen.1.1
      exact ⟨c, hc, by simp [Ticket.counts, hk, hseen.2.1], hrec⟩
    · cases hr
  | parkEnded now' known' last =>
    rw [hprobe] at hr hseen
    obtain ⟨hbase, hg, hpark, hlast⟩ := hseen
    obtain ⟨rfl, rfl, rfl⟩ : now' = now ∧ known' = known ∧
      State.lastEnd accept now' (max s.sessionEndedAt last) = r := by
      simpa [State.load] using hr
    have hiff := lastEnd_ok accept now' (max s.sessionEndedAt last)
    refine ⟨fun _ hc => hiff.mpr ?_, fun hok => ?_⟩
    · obtain ⟨i, c, hi, hc, hcounts, hrec⟩ := hc
      exact hbooks.lastEnd_late hg hpark hi hc hcounts hrec
    · obtain ⟨hne, hgrace⟩ := hiff.mp hok
      exact hbooks.recent_of_lastEnd hlast hne hgrace

end

/-- Two sessions end, and the one that read the clock first stores last: the probe finds that reading. -/
theorem readyz_follows_two : ∃ s : State, s.count .established = 0 ∧ s.sessionEndedAt = 100 ∧
    ∃ why, State.lastEnd false 114 (max s.sessionEndedAt 0) = .ok why := by
  have h := readyz_follows false 1 100 (by decide) (by decide)
    [.take .established, .take .established, .drop 0, .tick 1, .drop 1, .store 1, .store 0,
      .release 0, .release 1,
      .tick 13, .probe, .probe, .probe] _ _ rfl rfl 114 2 _ rfl
  exact ⟨_, rfl, rfl, h.1 rfl ⟨1, _, by decide, rfl, rfl, by decide⟩⟩

end CtAgent.Channel.Health
