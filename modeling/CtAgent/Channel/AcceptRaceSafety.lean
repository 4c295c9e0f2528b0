import CtAgent.Channel.AcceptRace

/-! The accept-vs-relay race has no split brain, over every run of the pairing. -/
namespace CtAgent.Channel.Race
open CtAgent.Lib CtAgent.Admission

namespace Initiator

/-- A dial that stands keeps the initiator on the direct path. -/
def OnDirect (i : Initiator) : Prop := i.phase = .dialing ∨ i.phase = .running .direct

/-- What holds of the initiator at each await: its relay leg is not joined before the dial has ended. -/
def Ok (i : Initiator) : Prop :=
  match i.phase with
  | .unpolled | .dialing => i.started = [] ∧ i.leg.joined = false
  | .relaying | .ended _ => i.started = []
  | .running .direct => i.started = [.direct] ∧ i.leg.joined = false
  | .running .relay => i.started = [.relay] ∧ i.leg.answeredAdmitted = true

/-- What a poll of the initiator leaves, from a state in which its leg was never abandoned. -/
structure Polled (i i' : Initiator) : Prop where
  ok : i'.Ok
  sound : i'.leg.Sound
  unabandoned : i'.leg.Unabandoned
  carried : Leg.Carried i.leg i'.leg

theorem pollRelay_polled {i : Initiator} (hsound : i.leg.Sound) (hquiet : i.leg.Unabandoned)
    (hstarted : i.started = []) : Polled i i.pollRelay := by
  have hpoll := hsound.pollQuiet hquiet
  have hquiet' := hpoll.unabandoned rfl
  unfold pollRelay
  dsimp only
  split
  · exact ⟨hstarted, hpoll.sound, hquiet', hpoll.toCarried⟩
  · rename_i leg hresult
    have hadmitted := hpoll.sound.admitted leg (Leg.result_eq_some.mp hresult)
    exact ⟨⟨by simp [start, hstarted], hadmitted⟩, hpoll.sound, hquiet', hpoll.toCarried⟩
  · rename_i hresult
    exact absurd (Leg.result_eq_some.mp hresult) hquiet'.2
  · exact ⟨hstarted, hpoll.sound, hquiet', hpoll.toCarried⟩

theorem pollDial_polled {h : Handshake} {i : Initiator} (hsound : i.leg.Sound) (hquiet : i.leg.Unabandoned)
    (hstarted : i.started = []) (hjoined : i.leg.joined = false) : Polled i (i.pollDial h) := by
  unfold pollDial
  split
  · exact ⟨⟨by simp [start, hstarted], hjoined⟩, hsound, hquiet, .refl _⟩
  · exact ⟨hstarted, hsound, hquiet, .refl _⟩
  · split
    · exact pollRelay_polled hsound hquiet hstarted
    · exact ⟨⟨hstarted, hjoined⟩, hsound, hquiet, .refl _⟩

theorem poll_polled {h : Handshake} {i : Initiator} (hok : i.Ok) (hsound : i.leg.Sound)
    (hquiet : i.leg.Unabandoned) : Polled i (i.poll h) := by
  have hok' := hok
  unfold Ok at hok'
  unfold poll
  split
  · rename_i hphase
    rw [hphase] at hok'
    split
    · exact pollRelay_polled hsound hquiet hok'.1
    · exact pollDial_polled hsound hquiet hok'.1 hok'.2
  · rename_i hphase
    rw [hphase] at hok'
    exact pollDial_polled hsound hquiet hok'.1 hok'.2
  · rename_i hphase
    rw [hphase] at hok'
    exact pollRelay_polled hsound hquiet hok'
  · exact ⟨hok, hsound, hquiet, .refl _⟩
  · exact ⟨hok, hsound, hquiet, .refl _⟩

/-- A handshake that is complete at the dialer counts, whether or not its timer is over. -/
theorem OnDirect.poll {h : Handshake} {i : Initiator} (hon : i.OnDirect) (hdialer : h.dialer = some (.ok ())) :
    (i.poll h).OnDirect := by
  obtain hphase | hphase := hon
  · right
    rw [Initiator.poll, hphase]
    simp only [pollDial, hdialer, start]
  · right
    rw [Initiator.poll, hphase]
    exact hphase

end Initiator

namespace Acceptor

/-- The race is not decided yet. -/
def undecided (a : Acceptor) : Bool :=
  match a.phase with
  | .racing | .awaitsDirect _ | .awaitsRelay => true
  | _ => false

def DirectFailed (a : Acceptor) : Prop := ∃ directErr, a.direct = some (.error directErr)

/-- The relay leg is out of the way of a direct session. -/
def LegSettled (a : Acceptor) : Prop :=
  a.leg.Closed ∨ a.leg.Failed ∨ a.leg.conn = .closeTimedOut ∨ a.closeWaitOver = true

def LegPending (a : Acceptor) : Prop := a.leg.Unabandoned ∧ ∀ result, a.leg.phase ≠ .done result

/-- What holds of the acceptor at each await. -/
def Ok (a : Acceptor) : Prop :=
  match a.phase with
  | .racing => a.started = [] ∧ a.direct = none ∧ a.LegPending
  | .awaitsDirect relayErr => a.started = [] ∧ a.direct = none ∧ a.leg.phase = .done (.error relayErr)
  | .awaitsRelay => a.started = [] ∧ a.DirectFailed ∧ a.LegPending
  | .closing => a.started = [] ∧ a.direct = some (.ok ())
  | .closesAdmitted leg =>
    a.started = [] ∧ a.direct = some (.ok ()) ∧ a.leg.phase = .done (.ok (.admitted leg))
  | .running .direct => a.started = [.direct] ∧ a.direct = some (.ok ()) ∧ a.LegSettled
  | .running .relay => a.started = [.relay] ∧ ∃ leg, a.leg.phase = .done (.ok (.admitted leg))
  | .ended err => a.started = [] ∧ a.DirectFailed ∧ a.leg.phase = .done (.error err)

/-- What a poll of the acceptor leaves: its direct future is through only where the handshake is complete
at the listener. -/
structure Polled (h : Handshake) (a a' : Acceptor) : Prop where
  ok : a'.Ok
  sound : a'.leg.Sound
  carried : Leg.Carried a.leg a'.leg
  direct : a'.direct = some (.ok ()) → a.direct = some (.ok ()) ∨ h.listener = some (.ok ())

theorem directNow_ok {h : Handshake} {a : Acceptor} (hnow : a.directNow h = some (.ok ())) :
    h.listener = some (.ok ()) := by
  unfold directNow at hnow
  split at hnow
  · assumption
  · exact absurd hnow nofun
  · exact absurd hnow nofun
  · split at hnow
    · exact absurd hnow nofun
    · exact absurd hnow nofun

theorem pollAwaitsDirect_polled {h : Handshake} {relayErr : BoxError} {a : Acceptor} (hsound : a.leg.Sound)
    (hstarted : a.started = []) (hdirect : a.direct = none) (hfailed : a.leg.phase = .done (.error relayErr)) :
    Polled h a (a.pollAwaitsDirect h relayErr) := by
  unfold pollAwaitsDirect
  split
  · refine ⟨⟨hstarted, hdirect, hfailed⟩, hsound, .refl _, ?_⟩
    intro hok
    exact .inl hok
  · rename_i hnow
    have hsettled : a.LegSettled := .inr (.inl ⟨relayErr, hfailed⟩)
    refine ⟨⟨by simp [start, hstarted], rfl, hsettled⟩, hsound, .refl _, ?_⟩
    intro _
    exact .inr (directNow_ok hnow)
  · rename_i directErr _
    exact ⟨⟨hstarted, ⟨directErr, rfl⟩, hfailed⟩, hsound, .refl _, nofun⟩

theorem pollAwaitsRelay_polled {h : Handshake} {a : Acceptor} (hsound : a.leg.Sound)
    (hstarted : a.started = [])
    (hdirect : a.DirectFailed) (hquiet : a.leg.Unabandoned) : Polled h a a.pollAwaitsRelay := by
  have hpoll := hsound.pollQuiet hquiet
  have hquiet' := hpoll.unabandoned rfl
  unfold pollAwaitsRelay
  dsimp only
  split
  · rename_i hresult
    have hpending : LegPending { a with leg := a.leg.poll false } := ⟨hquiet', Leg.result_eq_none.mp hresult⟩
    exact ⟨⟨hstarted, hdirect, hpending⟩, hpoll.sound, hpoll.toCarried, .inl⟩
  · rename_i leg hresult
    have hadmitted := Leg.result_eq_some.mp hresult
    exact ⟨⟨by simp [start, hstarted], leg, hadmitted⟩, hpoll.sound, hpoll.toCarried, .inl⟩
  · rename_i hresult
    exact absurd (Leg.result_eq_some.mp hresult) hquiet'.2
  · rename_i e hresult
    have hfailed := Leg.result_eq_some.mp hresult
    exact ⟨⟨hstarted, hdirect, hfailed⟩, hpoll.sound, hpoll.toCarried, .inl⟩

/-- The close of an admitted leg touches its transport only, and leaves it closed or out of time. -/
theorem pollClose_some {l l' : Leg} {leg : ParkedRelayLeg} (h : l.pollClose leg = some l') :
    (∃ conn, l' = { l with conn := conn }) ∧ (l'.Closed ∨ l'.conn = .closeTimedOut) := by
  unfold Leg.pollClose at h
  split at h
  · obtain rfl := Option.some.inj h
    exact ⟨⟨_, rfl⟩, .inl (.inl rfl)⟩
  · split at h
    · obtain rfl := Option.some.inj h
      exact ⟨⟨_, rfl⟩, .inl (.inl rfl)⟩
    · split at h
      · obtain rfl := Option.some.inj h
        exact ⟨⟨_, rfl⟩, .inr rfl⟩
      · exact absurd h nofun

theorem pollClosesAdmitted_polled {h : Handshake} {a : Acceptor} {leg : ParkedRelayLeg} (hsound : a.leg.Sound)
    (hstarted : a.started = []) (hdirect : a.direct = some (.ok ()))
    (hadmitted : a.leg.phase = .done (.ok (.admitted leg))) : Polled h a (a.pollClosesAdmitted leg) := by
  unfold pollClosesAdmitted
  split
  · exact ⟨⟨hstarted, hdirect, hadmitted⟩, hsound, .refl _, .inl⟩
  · rename_i closed hclose
    obtain ⟨⟨conn, rfl⟩, hgone⟩ := pollClose_some hclose
    have hsettled : LegSettled { a with leg := { a.leg with conn := conn } } := by
      obtain hclosed | hout := hgone
      · exact .inl hclosed
      · exact .inr (.inr (.inl hout))
    have hsound' : Leg.Sound { a.leg with conn := conn } := by
      constructor
      · intro hphase
        simp [hadmitted] at hphase
      · exact hsound.closing
      · exact hsound.admitted
      · intro hphase
        simp [hadmitted] at hphase
    refine ⟨⟨by simp [start, hstarted], hdirect, hsettled⟩, hsound', ⟨rfl, id⟩, .inl⟩

theorem pollClosing_polled {h : Handshake} {a : Acceptor} (hsound : a.leg.Sound) (hstarted : a.started = [])
    (hdirect : a.direct = some (.ok ())) : Polled h a a.pollClosing := by
  have hpoll := hsound.pollSignal
  have hstart (hsettled : LegSettled { a with leg := a.leg.poll true }) :
      Polled h a ({ a with leg := a.leg.poll true }.start .direct) :=
    ⟨⟨by simp [start, hstarted], hdirect, hsettled⟩, hpoll.sound, hpoll.toCarried, .inl⟩
  unfold pollClosing
  dsimp only
  split
  · rename_i leg hresult
    have hadmitted := Leg.result_eq_some.mp hresult
    have hclose := pollClosesAdmitted_polled (h := h) (a := { a with leg := a.leg.poll true }) hpoll.sound
      hstarted hdirect hadmitted
    exact ⟨hclose.ok, hclose.sound, hpoll.toCarried.trans hclose.carried, hclose.direct⟩
  · rename_i hresult
    have hphase := Leg.result_eq_some.mp hresult
    apply hstart
    cases hconn : (a.leg.poll true).conn with
    | unopened => exact .inl (.inr ⟨hconn, hphase⟩)
    | opened => exact absurd hconn (hpoll.sound.abandoned hphase)
    | closed => exact .inl (.inl hconn)
    | closeTimedOut => exact .inr (.inr (.inl hconn))
  · rename_i e hresult
    apply hstart
    exact .inr (.inl ⟨e, Leg.result_eq_some.mp hresult⟩)
  · split
    · rename_i hwait
      apply hstart
      exact .inr (.inr (.inr hwait))
    · exact ⟨⟨hstarted, hdirect⟩, hpoll.sound, hpoll.toCarried, .inl⟩

theorem pollRacing_polled {h : Handshake} {a : Acceptor} (hphase : a.phase = .racing) (hsound : a.leg.Sound)
    (hstarted : a.started = []) (hdirect : a.direct = none) (hquiet : a.leg.Unabandoned) :
    Polled h a (a.pollRacing h) := by
  have hpoll := hsound.pollQuiet hquiet
  have hquiet' := hpoll.unabandoned rfl
  unfold pollRacing
  dsimp only
  split
  · rename_i leg hresult
    have hadmitted := Leg.result_eq_some.mp hresult
    exact ⟨⟨by simp [start, hstarted], leg, hadmitted⟩, hpoll.sound, hpoll.toCarried, .inl⟩
  · rename_i hresult
    exact absurd (Leg.result_eq_some.mp hresult) hquiet'.2
  · rename_i relayErr hresult
    have hrest := pollAwaitsDirect_polled (h := h)
      (a := { a with leg := a.leg.poll false }) hpoll.sound hstarted
      hdirect (Leg.result_eq_some.mp hresult)
    exact ⟨hrest.ok, hrest.sound, hpoll.toCarried.trans hrest.carried, hrest.direct⟩
  · rename_i hresult
    have hpending : LegPending { a with leg := a.leg.poll false } := ⟨hquiet', Leg.result_eq_none.mp hresult⟩
    split
    · refine ⟨?_, hpoll.sound, hpoll.toCarried, .inl⟩
      simp only [Ok, hphase]
      exact ⟨hstarted, hdirect, hpending⟩
    · rename_i hnow
      have hrest := pollClosing_polled (h := h)
        (a := { a with leg := a.leg.poll false, direct := some (.ok ()) }) hpoll.sound hstarted rfl
      refine ⟨hrest.ok, hrest.sound, hpoll.toCarried.trans hrest.carried, ?_⟩
      intro _
      exact .inr (directNow_ok hnow)
    · rename_i directErr hnow
      have hrest := pollAwaitsRelay_polled (h := h)
        (a := { a with leg := a.leg.poll false, direct := some (.error directErr) }) hpoll.sound hstarted
        ⟨directErr, rfl⟩ hquiet'
      refine ⟨hrest.ok, hrest.sound, hpoll.toCarried.trans hrest.carried, ?_⟩
      intro hok
      obtain hdone | hdone := hrest.direct hok
      · exact absurd hdone nofun
      · exact .inr hdone

theorem poll_polled {h : Handshake} {a : Acceptor} (hok : a.Ok) (hsound : a.leg.Sound) :
    Polled h a (a.poll h) := by
  have hok' := hok
  unfold Ok at hok'
  unfold poll
  split
  · rename_i hphase
    rw [hphase] at hok'
    obtain ⟨hstarted, hdirect, hquiet, -⟩ := hok'
    exact pollRacing_polled hphase hsound hstarted hdirect hquiet
  · rename_i relayErr hphase
    rw [hphase] at hok'
    obtain ⟨hstarted, hdirect, hfailed⟩ := hok'
    exact pollAwaitsDirect_polled hsound hstarted hdirect hfailed
  · rename_i hphase
    rw [hphase] at hok'
    obtain ⟨hstarted, hdirect, hquiet, -⟩ := hok'
    exact pollAwaitsRelay_polled hsound hstarted hdirect hquiet
  · rename_i hphase
    rw [hphase] at hok'
    exact pollClosing_polled hsound hok'.1 hok'.2
  · rename_i leg hphase
    rw [hphase] at hok'
    obtain ⟨hstarted, hdirect, hadmitted⟩ := hok'
    exact pollClosesAdmitted_polled hsound hstarted hdirect hadmitted
  · exact ⟨hok, hsound, .refl _, .inl⟩
  · exact ⟨hok, hsound, .refl _, .inl⟩

end Acceptor

namespace Leg

/-- What the world does to a leg between two polls: it changes what is at hand, not where the leg is. -/
structure Touched (l l' : Leg) : Prop where
  phase : l'.phase = l.phase
  conn : l'.conn = l.conn
  joined : l'.joined = l.joined
  answered : l.answeredAdmitted = true → l'.answeredAdmitted = true

theorem Sound.touched {l l' : Leg} (h : l.Sound) (ht : Touched l l') : l'.Sound where
  unopened hphase := by
    rw [ht.conn]
    exact h.unopened (ht.phase ▸ hphase)
  closing leg hphase := h.closing leg (ht.phase ▸ hphase)
  admitted leg hphase := ht.answered (h.admitted leg (ht.phase ▸ hphase))
  abandoned hphase := by
    rw [ht.conn]
    exact h.abandoned (ht.phase ▸ hphase)

theorem Unabandoned.touched {l l' : Leg} (h : l.Unabandoned) (ht : Touched l l') : l'.Unabandoned := by
  unfold Unabandoned
  rw [ht.phase]
  exact h

end Leg

theorem Initiator.Ok.touched {i : Initiator} {l : Leg} (h : i.Ok) (ht : Leg.Touched i.leg l) :
    Initiator.Ok { i with leg := l } := by
  unfold Initiator.Ok at h ⊢
  dsimp only
  split at h
  · exact ⟨h.1, ht.joined.trans h.2⟩
  · exact ⟨h.1, ht.joined.trans h.2⟩
  · exact h
  · exact h
  · exact ⟨h.1, ht.joined.trans h.2⟩
  · exact ⟨h.1, ht.answered h.2⟩

theorem Acceptor.Ok.touched {a : Acceptor} {l : Leg} (h : a.Ok) (ht : Leg.Touched a.leg l) :
    Acceptor.Ok { a with leg := l } := by
  have hpending (hp : a.LegPending) : LegPending { a with leg := l } := by
    obtain ⟨hquiet, hopen⟩ := hp
    refine ⟨hquiet.touched ht, ?_⟩
    intro result hphase
    exact hopen result (ht.phase ▸ hphase)
  have hsettled (hs : a.LegSettled) : LegSettled { a with leg := l } := by
    unfold LegSettled Leg.Closed Leg.Failed at hs ⊢
    dsimp only
    rw [ht.conn, ht.phase]
    exact hs
  unfold Acceptor.Ok at h ⊢
  dsimp only
  split at h
  · exact ⟨h.1, h.2.1, hpending h.2.2⟩
  · exact ⟨h.1, h.2.1, ht.phase.trans h.2.2⟩
  · exact ⟨h.1, h.2.1, hpending h.2.2⟩
  · exact h
  · exact ⟨h.1, h.2.1, ht.phase.trans h.2.2⟩
  · exact ⟨h.1, h.2.1, hsettled h.2.2⟩
  · obtain ⟨hstarted, leg, hadmitted⟩ := h
    exact ⟨hstarted, leg, ht.phase.trans hadmitted⟩
  · exact ⟨h.1, h.2.1, ht.phase.trans h.2.2⟩

theorem Acceptor.Ok.waited {a : Acceptor} (h : a.Ok) : Acceptor.Ok { a with closeWaitOver := true } := by
  unfold Acceptor.Ok at h ⊢
  dsimp only
  split at h
  · exact h
  · exact h
  · exact h
  · exact h
  · exact h
  · exact ⟨h.1, h.2.1, .inr (.inr (.inr rfl))⟩
  · exact h
  · exact h

namespace Pairing

/-- What holds of the pairing in every state: each party answers for what the next one goes by. -/
structure Inv (s : Pairing) : Prop where
  initiator : s.initiator.Ok
  acceptor : s.acceptor.Ok
  sound : ∀ role, (s.leg role).Sound
  quiet : s.initiator.leg.Unabandoned
  dialer : s.handshake.dialer = some (.ok ()) → s.initiator.OnDirect
  listener : s.handshake.listener = some (.ok ()) → s.handshake.dialer = some (.ok ())
  direct : s.acceptor.direct = some (.ok ()) → s.handshake.listener = some (.ok ())
  parked : ∀ role, s.edge.view role = .parked → (s.leg role).joined = true
  admitted : s.edge.admitted = true → ∀ role, (s.leg role).joined = true
  answered : ∀ role, (s.leg role).answeredAdmitted = true → s.edge.admitted = true

theorem inv_initial (c : Setup) : (initial c).Inv where
  initiator := ⟨rfl, rfl⟩
  acceptor := ⟨rfl, rfl, Leg.new_unabandoned _ _, nofun⟩
  sound role := by cases role <;> exact Leg.new_sound _ _
  quiet := Leg.new_unabandoned _ _
  dialer := nofun
  listener := nofun
  direct := nofun
  parked _ h := nomatch h
  admitted := nofun
  answered role h := by cases role <;> exact nomatch h

theorem leg_onLeg (s : Pairing) (role role' : ChannelRole) (f : Leg → Leg) :
    (s.onLeg role f).leg role' = if role' = role then f (s.leg role') else s.leg role' := by
  cases role <;> cases role' <;> rfl

theorem edge_onLeg (s : Pairing) (role : ChannelRole) (f : Leg → Leg) : (s.onLeg role f).edge = s.edge := by
  cases role <;> rfl

/-- A step that unsends no join leaves what the edge goes by. -/
theorem Inv.joined {s s' : Pairing} (h : s.Inv) (hedge : s'.edge = s.edge)
    (hjoined : ∀ role, (s.leg role).joined = true → (s'.leg role).joined = true) :
    (∀ role, s'.edge.view role = .parked → (s'.leg role).joined = true) ∧
      (s'.edge.admitted = true → ∀ role, (s'.leg role).joined = true) := by
  rw [hedge]
  constructor
  · intro role hview
    exact hjoined role (h.parked role hview)
  · intro hadmitted role
    exact hjoined role (h.admitted hadmitted role)

/-- A step that leaves the edge alone and carries every leg leaves what the edge has said in force. -/
theorem Inv.carried {s s' : Pairing} (h : s.Inv) (hedge : s'.edge = s.edge)
    (hlegs : ∀ role, Leg.Carried (s.leg role) (s'.leg role)) :
    (∀ role, s'.edge.view role = .parked → (s'.leg role).joined = true) ∧
      (s'.edge.admitted = true → ∀ role, (s'.leg role).joined = true) ∧
      ∀ role, (s'.leg role).answeredAdmitted = true → s'.edge.admitted = true := by
  obtain ⟨hparked, hadmitted⟩ := h.joined hedge (fun role => (hlegs role).joined)
  refine ⟨hparked, hadmitted, ?_⟩
  intro role hanswered
  rw [(hlegs role).answeredAdmitted] at hanswered
  rw [hedge]
  exact h.answered role hanswered

theorem Inv.pollInitiator {s s' : Pairing} (h : s.Inv)
    (hs : s' = { s with initiator := s.initiator.poll s.handshake }) : s'.Inv := by
  have hpoll := Initiator.poll_polled (h := s.handshake) h.initiator (h.sound .initiate) h.quiet
  have hlegs (role : ChannelRole) : Leg.Carried (s.leg role) (s'.leg role) := by
    subst hs
    cases role with
    | initiate => exact hpoll.carried
    | accept => exact .refl _
  have hedge : s'.edge = s.edge := by rw [hs]
  obtain ⟨hparked, hadmitted, hanswered⟩ := h.carried hedge hlegs
  subst hs
  refine ⟨hpoll.ok, h.acceptor, ?_, hpoll.unabandoned, ?_, h.listener, h.direct, hparked, hadmitted, hanswered⟩
  · intro role
    cases role with
    | initiate => exact hpoll.sound
    | accept => exact h.sound .accept
  · intro hdialer
    exact (h.dialer hdialer).poll hdialer

theorem Inv.pollAcceptor {s s' : Pairing} (h : s.Inv)
    (hs : s' = { s with acceptor := s.acceptor.poll s.handshake }) : s'.Inv := by
  have hpoll := Acceptor.poll_polled (h := s.handshake) h.acceptor (h.sound .accept)
  have hlegs (role : ChannelRole) : Leg.Carried (s.leg role) (s'.leg role) := by
    subst hs
    cases role with
    | initiate => exact .refl _
    | accept => exact hpoll.carried
  have hedge : s'.edge = s.edge := by rw [hs]
  obtain ⟨hparked, hadmitted, hanswered⟩ := h.carried hedge hlegs
  subst hs
  refine ⟨h.initiator, hpoll.ok, ?_, h.quiet, h.dialer, h.listener, ?_, hparked, hadmitted, hanswered⟩
  · intro role
    cases role with
    | initiate => exact h.sound .initiate
    | accept => exact hpoll.sound
  · intro hok
    obtain hbefore | hnow := hpoll.direct hok
    · exact h.direct hbefore
    · exact hnow

theorem Inv.onLeg {s : Pairing} (h : s.Inv) {role : ChannelRole} {f : Leg → Leg}
    (ht : Leg.Touched (s.leg role) (f (s.leg role)))
    (hanswer : (f (s.leg role)).answeredAdmitted = true → s.edge.admitted = true) :
    (s.onLeg role f).Inv := by
  have htouched (role' : ChannelRole) : Leg.Touched (s.leg role') ((s.onLeg role f).leg role') := by
    rw [leg_onLeg]
    split
    · rename_i heq
      exact heq ▸ ht
    · exact ⟨rfl, rfl, rfl, id⟩
  have hanswered (role' : ChannelRole) (ha : ((s.onLeg role f).leg role').answeredAdmitted = true) :
      s.edge.admitted = true := by
    rw [leg_onLeg] at ha
    split at ha
    · rename_i heq
      subst heq
      exact hanswer ha
    · exact h.answered role' ha
  have hsound (role' : ChannelRole) : ((s.onLeg role f).leg role').Sound :=
    (h.sound role').touched (htouched role')
  obtain ⟨hparked, hadmitted⟩ := h.joined (edge_onLeg s role f)
    (fun role' hjoined => (htouched role').joined.trans hjoined)
  cases role with
  | initiate =>
    exact ⟨h.initiator.touched ht, h.acceptor, hsound, h.quiet.touched ht, h.dialer, h.listener, h.direct,
      hparked, hadmitted, hanswered⟩
  | accept =>
    exact ⟨h.initiator, h.acceptor.touched ht, hsound, h.quiet, h.dialer, h.listener, h.direct, hparked,
      hadmitted, hanswered⟩

/-- A step of the handshake alone: what is complete at the listener is complete at the dialer, and the dial
that stands is the one the initiator goes by. -/
theorem Inv.onHandshake {s : Pairing} (h : s.Inv) {k : Handshake}
    (hdialer : k.dialer = some (.ok ()) → s.initiator.OnDirect)
    (hlistener : k.listener = some (.ok ()) → k.dialer = some (.ok ()))
    (hkept : s.handshake.listener = some (.ok ()) → k.listener = some (.ok ())) :
    Inv { s with handshake := k } :=
  ⟨h.initiator, h.acceptor, h.sound, h.quiet, hdialer, hlistener, fun hok => hkept (h.direct hok), h.parked,
    h.admitted, h.answered⟩

theorem onDirect_of_dialing {s : Pairing} (h : s.dialing = true) : s.initiator.OnDirect := by
  unfold dialing at h
  split at h
  · exact .inl ‹_›
  · exact absurd h nofun

theorem dialer_of_dialerDone {h : Handshake} (hdone : h.dialerDone = true) : h.dialer = some (.ok ()) := by
  unfold Handshake.dialerDone at hdone
  split at hdone
  · assumption
  · exact absurd hdone nofun

theorem Inv.onView {s : Pairing} (h : s.Inv) {role : ChannelRole} {v : EdgeLeg}
    (hv : v = .parked → (s.leg role).joined = true) : (s.onView role v).Inv := by
  refine ⟨h.initiator, h.acceptor, h.sound, h.quiet, h.dialer, h.listener, h.direct, ?_,
    h.admitted, h.answered⟩
  intro role' hview
  simp only [Pairing.onView] at hview
  split at hview
  · rename_i heq
    exact heq ▸ hv hview
  · exact h.parked role' hview

/-- The edge pairs two legs it has parked, so both members have sent their join. -/
theorem Inv.onAdmits {s : Pairing} (h : s.Inv) (hboth : s.bothParked = true) :
    Inv { s with edge := { s.edge with admitted := true } } := by
  simp only [bothParked, decide_eq_true_eq] at hboth
  obtain ⟨hinitiate, haccept⟩ := hboth
  refine ⟨h.initiator, h.acceptor, h.sound, h.quiet, h.dialer, h.listener, h.direct, h.parked,
    ?_, fun _ _ => rfl⟩
  intro _ role
  cases role with
  | initiate => exact h.parked .initiate hinitiate
  | accept => exact h.parked .accept haccept

theorem Inv.onAnswer {s : Pairing} (h : s.Inv) {role : ChannelRole}
    {presented : Except ForeignError ChannelJoinOutcome} (hfirst : (s.leg role).answer = none)
    (hmay : s.mayAnswer role presented = true) :
    (s.onLeg role fun l => { l with answer := some presented }).Inv := by
  apply h.onLeg
  · refine ⟨rfl, rfl, rfl, ?_⟩
    intro hanswered
    unfold Leg.answeredAdmitted at hanswered
    rw [hfirst] at hanswered
    exact absurd hanswered nofun
  · intro hanswered
    unfold Leg.answeredAdmitted at hanswered
    split at hanswered
    · rename_i hadmitted
      rw [Option.some.injEq] at hadmitted
      rw [hadmitted] at hmay
      exact hmay
    · exact absurd hanswered nofun

theorem inv_step {s s' : Pairing} {e : Event} (h : s.Inv) (hs : step s e = some s') : s'.Inv := by
  unfold step at hs
  cases e with
  | pollInitiator => exact h.pollInitiator (Option.some.inj hs).symm
  | pollAcceptor => exact h.pollAcceptor (Option.some.inj hs).symm
  | incoming =>
    obtain rfl := Option.some.inj hs
    exact h.onHandshake h.dialer h.listener id
  | listenerCloses =>
    obtain rfl := Option.some.inj hs
    exact h.onHandshake h.dialer h.listener id
  | dialerCompletes =>
    obtain ⟨hguard, rfl⟩ := allow_eq_some.mp hs
    simp only [Bool.and_eq_true] at hguard
    exact h.onHandshake (fun _ => onDirect_of_dialing hguard.1.1) (fun _ => rfl) id
  | dialerFails err =>
    obtain ⟨hguard, rfl⟩ := allow_eq_some.mp hs
    rw [Option.isNone_iff_eq_none] at hguard
    apply h.onHandshake
    · simp
    · intro hlistener
      have hdialer := h.listener hlistener
      rw [hguard] at hdialer
      exact absurd hdialer nofun
    · exact id
  | listenerCompletes =>
    obtain ⟨hguard, rfl⟩ := allow_eq_some.mp hs
    simp only [Bool.and_eq_true] at hguard
    exact h.onHandshake h.dialer (fun _ => dialer_of_dialerDone hguard.1) (fun _ => rfl)
  | listenerFails err =>
    obtain ⟨hguard, rfl⟩ := allow_eq_some.mp hs
    simp only [Bool.and_eq_true, Option.isNone_iff_eq_none] at hguard
    apply h.onHandshake
    · exact h.dialer
    · simp
    · intro hlistener
      rw [hguard.2] at hlistener
      exact absurd hlistener nofun
  | dialed role left =>
    obtain rfl := Option.some.inj hs
    exact h.onLeg ⟨rfl, rfl, rfl, id⟩ (h.answered role)
  | parks role =>
    obtain ⟨hguard, rfl⟩ := allow_eq_some.mp hs
    simp only [Bool.and_eq_true] at hguard
    exact h.onView fun _ => hguard.1
  | seesClosed role =>
    obtain rfl := Option.some.inj hs
    exact h.onView nofun
  | admits =>
    obtain ⟨hguard, rfl⟩ := allow_eq_some.mp hs
    exact h.onAdmits hguard
  | answers role presented =>
    obtain ⟨hguard, rfl⟩ := allow_eq_some.mp hs
    simp only [Bool.and_eq_true, Option.isNone_iff_eq_none] at hguard
    exact h.onAnswer hguard.1 hguard.2
  | shuts role =>
    obtain rfl := Option.some.inj hs
    exact h.onLeg ⟨rfl, rfl, rfl, id⟩ (h.answered role)
  | dialTimeout =>
    obtain ⟨-, rfl⟩ := allow_eq_some.mp hs
    exact { h with }
  | acceptTimeout =>
    obtain rfl := Option.some.inj hs
    exact { h with }
  | pairBound role =>
    obtain ⟨-, rfl⟩ := allow_eq_some.mp hs
    exact h.onLeg ⟨rfl, rfl, rfl, id⟩ (h.answered role)
  | shutBound role =>
    obtain ⟨-, rfl⟩ := allow_eq_some.mp hs
    exact h.onLeg ⟨rfl, rfl, rfl, id⟩ (h.answered role)
  | closeWait =>
    obtain ⟨-, rfl⟩ := allow_eq_some.mp hs
    have hacceptor : Acceptor.Ok { s.acceptor with closeWaitOver := true } := h.acceptor.waited
    exact { h with acceptor := hacceptor }

theorem inv_run {c : Setup} {s : Pairing} (h : Reachable step (initial c) s) : s.Inv :=
  reachable_invariant (fun _ _ _ hinv hs => inv_step hinv hs) (inv_initial c) h

/-- Where a session of the initiator comes from. -/
theorem Inv.initiator_started {s : Pairing} (h : s.Inv) {t : Transport} (ht : t ∈ s.initiator.started) :
    t = .direct ∧ s.initiator.leg.joined = false ∨
      t = .relay ∧ s.initiator.phase = .running .relay := by
  have hok := h.initiator
  unfold Initiator.Ok at hok
  split at hok
  · simp [hok.1] at ht
  · simp [hok.1] at ht
  · simp [hok] at ht
  · simp [hok] at ht
  · rw [hok.1, List.mem_singleton] at ht
    exact .inl ⟨ht, hok.2⟩
  · rename_i hphase
    rw [hok.1, List.mem_singleton] at ht
    exact .inr ⟨ht, hphase⟩

theorem Inv.acceptor_started {s : Pairing} (h : s.Inv) {t : Transport} (ht : t ∈ s.acceptor.started) :
    t = .direct ∧ s.acceptor.direct = some (.ok ()) ∧ s.acceptor.LegSettled ∨
      t = .relay ∧ ∃ leg, s.acceptor.leg.phase = .done (.ok (.admitted leg)) := by
  have hok := h.acceptor
  unfold Acceptor.Ok at hok
  split at hok
  · simp [hok.1] at ht
  · simp [hok.1] at ht
  · simp [hok.1] at ht
  · simp [hok.1] at ht
  · simp [hok.1] at ht
  · rw [hok.1, List.mem_singleton] at ht
    exact .inl ⟨ht, hok.2⟩
  · rw [hok.1, List.mem_singleton] at ht
    exact .inr ⟨ht, hok.2⟩
  · simp [hok.1] at ht

theorem Inv.one_transport {s : Pairing} (h : s.Inv) {t t' : Transport} (ht : t ∈ s.initiator.started)
    (ht' : t' ∈ s.acceptor.started) : t = t' := by
  obtain ⟨hdirect, hunjoined⟩ | ⟨hrelay, hphase⟩ := h.initiator_started ht
  · obtain ⟨hdirect', -⟩ | ⟨-, parked, hadmitted⟩ := h.acceptor_started ht'
    · rw [hdirect, hdirect']
    · -- an admitted leg of the acceptor says that the initiator has joined on the relay
      have hanswered := (h.sound .accept).admitted parked hadmitted
      have hjoined : s.initiator.leg.joined = true := h.admitted (h.answered .accept hanswered) .initiate
      rw [hunjoined] at hjoined
      exact absurd hjoined nofun
  · obtain ⟨-, hdone, -⟩ | ⟨hrelay', -⟩ := h.acceptor_started ht'
    · -- a handshake that is complete at the listener keeps the initiator on the direct path
      obtain hon | hon := h.dialer (h.listener (h.direct hdone))
      · rw [hphase] at hon
        exact absurd hon nofun
      · rw [hphase] at hon
        exact absurd hon nofun
    · rw [hrelay, hrelay']

theorem Inv.started_once {s : Pairing} (h : s.Inv) : s.acceptor.started.length ≤ 1 := by
  have hok := h.acceptor
  unfold Acceptor.Ok at hok
  split at hok
  · simp [hok.1]
  · simp [hok.1]
  · simp [hok.1]
  · simp [hok.1]
  · simp [hok.1]
  · simp [hok.1]
  · simp [hok.1]
  · simp [hok.1]

/-- The join has ended with an error where both paths have failed, and it is the relay's. -/
theorem Inv.ended_iff {s : Pairing} (h : s.Inv) (err : BoxError) :
    s.acceptor.phase = .ended err ↔ s.acceptor.DirectFailed ∧ s.acceptor.leg.phase = .done (.error err) := by
  have hok := h.acceptor
  unfold Acceptor.Ok at hok
  constructor
  · intro hphase
    rw [hphase] at hok
    exact hok.2
  · rintro ⟨⟨directErr, hfailed⟩, hleg⟩
    split at hok
    · simp [hok.2.1] at hfailed
    · simp [hok.2.1] at hfailed
    · exact absurd hleg (hok.2.2.2 _)
    · simp [hok.2] at hfailed
    · simp [hok.2.1] at hfailed
    · simp [hok.2.1] at hfailed
    · obtain ⟨-, leg, hadmitted⟩ := hok
      rw [hadmitted] at hleg
      simp at hleg
    · rename_i err' hphase
      rw [hok.2.2, LegPhase.done.injEq, Except.error.injEq] at hleg
      rw [hphase, hleg]

/-- Where both paths fail with the next poll, the join returns the relay's error with it. -/
theorem Inv.ends_of_both_failed {s : Pairing} (h : s.Inv) {directErr relayErr : BoxError}
    (hopen : s.acceptor.undecided = true)
    (hdirect : s.acceptor.directAtHand s.handshake = some (.error directErr))
    (hrelay : (s.acceptor.leg.poll false).result = some (.error relayErr)) :
    (s.acceptor.poll s.handshake).phase = .ended relayErr := by
  have hok := h.acceptor
  unfold Acceptor.undecided at hopen
  unfold Acceptor.directAtHand at hdirect
  unfold Acceptor.Ok at hok
  unfold Acceptor.poll
  split at hopen
  · rename_i hphase
    rw [hphase] at hok ⊢
    rw [hok.2.1] at hdirect
    have hnow : Acceptor.directNow s.handshake { s.acceptor with leg := s.acceptor.leg.poll false }
        = some (.error directErr) := hdirect
    simp only [Acceptor.pollRacing, hrelay, Acceptor.pollAwaitsDirect, hnow, Acceptor.fail]
  · rename_i relayErr' hphase
    rw [hphase] at hok ⊢
    obtain ⟨-, hnone, hleg⟩ := hok
    rw [hnone] at hdirect
    -- the leg has failed before, and stays as it is
    rw [Leg.poll_of_done hleg, Leg.result_eq_some.mpr hleg, Option.some.injEq, Except.error.injEq] at hrelay
    simp only [Acceptor.pollAwaitsDirect, hdirect, Acceptor.fail, hrelay]
  · rename_i hphase
    rw [hphase]
    simp only [Acceptor.pollAwaitsRelay, hrelay, Acceptor.fail]
  · exact absurd hopen nofun

/-- In every run the two members start their sessions on one transport, the acceptor starts at most one and
a direct one only with its relay leg out of the way; its join fails only where both paths have, and then
with the error of the relay. -/
theorem race_keeps_one_transport {c : Setup} {s : Pairing} (h : Reachable step (initial c) s) :
    (∀ t ∈ s.initiator.started, ∀ t' ∈ s.acceptor.started, t = t') ∧
      s.acceptor.started.length ≤ 1 ∧
      (.direct ∈ s.acceptor.started →
        s.acceptor.leg.Closed ∨ s.acceptor.leg.Failed ∨ s.acceptor.leg.conn = .closeTimedOut ∨
          s.acceptor.closeWaitOver = true) ∧
      (∀ err, s.acceptor.phase = .ended err ↔
        (∃ directErr, s.acceptor.direct = some (.error directErr)) ∧
          s.acceptor.leg.phase = .done (.error err)) ∧
      ∀ directErr relayErr, s.acceptor.undecided = true →
        s.acceptor.directAtHand s.handshake = some (.error directErr) →
        (s.acceptor.leg.poll false).result = some (.error relayErr) →
        ∃ s', step s .pollAcceptor = some s' ∧ s'.acceptor.phase = .ended relayErr := by
  have hinv := inv_run h
  refine ⟨?_, hinv.started_once, ?_, hinv.ended_iff, ?_⟩
  · intro t ht t' ht'
    exact hinv.one_transport ht ht'
  · intro ht
    obtain ⟨-, -, hsettled⟩ | ⟨hrelay, -⟩ := hinv.acceptor_started ht
    · exact hsettled
    · exact absurd hrelay nofun
  · intro directErr relayErr hopen hdirect hrelay
    exact ⟨_, rfl, hinv.ends_of_both_failed hopen hdirect hrelay⟩

def sampleSetup : Setup where
  peerRelayOnly := false
  acceptTimeout := "8s"
  route := fun role => match role with
    | .initiate => .quicLazy
    | .accept => .ladder [.direct, .frontDoor]
  pairBoundSecs := fun _ => 45

/-- The acceptor's leg is parked on the front door when the handshake completes. -/
def sampleRun : List Event :=
  [.pollInitiator, .pollAcceptor, .dialed .accept (.error (.dial .unreachable)), .dialed .accept (.ok ()),
    .pollAcceptor, .parks .accept, .incoming, .dialerCompletes, .dialTimeout, .pollInitiator,
      .listenerCompletes,
    .shuts .accept, .pollAcceptor]

theorem race_keeps_one_transport_sample :
    ∃ s, run step (initial sampleSetup) sampleRun = some s ∧ s.initiator.started = [.direct] ∧
      s.acceptor.started = [.direct] ∧ (∀ t ∈ s.initiator.started, ∀ t' ∈ s.acceptor.started, t = t') ∧
      s.acceptor.leg.conn = .closed :=
  ⟨_, rfl, rfl, rfl, (race_keeps_one_transport (c := sampleSetup) ⟨sampleRun, rfl⟩).1, rfl⟩

-- the dial times out, and both legs are admitted
example :
    (run step (initial sampleSetup)
      [.pollInitiator, .pollAcceptor, .dialTimeout, .pollInitiator, .dialed .initiate (.ok ()),
        .dialed .accept (.ok ()), .pollInitiator, .pollAcceptor, .parks .initiate, .parks .accept, .admits,
        .answers .accept (.ok (.admitted "" none none none)),
        .answers .initiate (.ok (.admitted "" none none none)), .pollAcceptor, .pollInitiator]).map
      (fun s => (s.initiator.started, s.acceptor.started)) = some ([.relay], [.relay]) := rfl

end Pairing
end CtAgent.Channel.Race
