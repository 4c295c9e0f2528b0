import CtAgent.Channel.RelayLeg
import CtAgent.Lib.Run

/-! One pairing as its two members, its edge and its direct handshake see it: the `Initiate` arm of
`run_channel_join_with_admission`, `race_accept_against_relay`, and the steps between them in any order. -/
namespace CtAgent.Channel.Race
open CtAgent.Lib CtAgent.Admission

inductive Transport where
  | direct | relay
  deriving DecidableEq, Repr

/-- The direct handshake as its two ends have it. -/
structure Handshake where
  dialer : Option (Except ForeignError Unit)
  incoming : Bool
  listenerClosed : Bool
  listener : Option (Except ForeignError Unit)
  deriving Repr

def Handshake.dialerDone (h : Handshake) : Bool :=
  match h.dialer with
  | some (.ok ()) => true
  | _ => false

inductive InitiatePhase where
  | unpolled
  | dialing
  | relaying
  | running (t : Transport)
  | ended (err : BoxError)

/-- The initiator behind its admission; `started` lists the sessions its `local` went to. -/
structure Initiator where
  peerRelayOnly : Bool
  phase : InitiatePhase
  dialTimedOut : Bool
  leg : Leg
  started : List Transport

namespace Initiator

def start (i : Initiator) (t : Transport) : Initiator :=
  { i with phase := .running t, started := i.started ++ [t] }

def fail (i : Initiator) (err : BoxError) : Initiator := { i with phase := .ended err }

/-- `join_via_relay_fallback`, whose leg has no abandon signal. -/
def pollRelay (i : Initiator) : Initiator :=
  let i := { i with leg := i.leg.poll false }
  match i.leg.result with
  | none => { i with phase := .relaying }
  | some (.ok (.admitted _)) => i.start .relay
  | some (.ok .abandoned) => i.fail (.text "relay leg reported abandoned without an abandon signal (#22)")
  | some (.error e) => i.fail e

/-- `dial_peer_direct` and the match on it. A timeout polls what it bounds before its own timer. -/
def pollDial (h : Handshake) (i : Initiator) : Initiator :=
  match h.dialer with
  | some (.ok ()) => i.start .direct
  | some (.error e) => i.fail (.foreign e)
  | none =>
    if i.dialTimedOut then i.pollRelay
    else { i with phase := .dialing }

def poll (h : Handshake) (i : Initiator) : Initiator :=
  match i.phase with
  | .unpolled => if i.peerRelayOnly then i.pollRelay else i.pollDial h
  | .dialing => i.pollDial h
  | .relaying => i.pollRelay
  | .running _ | .ended _ => i

end Initiator

/-- The awaits of the race. `awaitsDirect`: the relay leg has failed; `awaitsRelay`: the direct path gave
up; `closing`: direct won and the leg was told to abandon; `closesAdmitted`: it was admitted all the same. -/
inductive AcceptPhase where
  | racing
  | awaitsDirect (relayErr : BoxError)
  | awaitsRelay
  | closing
  | closesAdmitted (leg : ParkedRelayLeg)
  | running (t : Transport)
  | ended (err : BoxError)

/-- `direct` is what the direct future came to, `acceptTimeout` the accept window as it prints.
`closeWaitOver`: the `RELAY_LEG_CLOSE_TIMEOUT * 2` the winner waits for its leg are over. -/
structure Acceptor where
  acceptTimeout : String
  phase : AcceptPhase
  acceptTimedOut : Bool
  direct : Option (Except BoxError Unit)
  leg : Leg
  closeWaitOver : Bool
  started : List Transport

namespace Acceptor

def start (a : Acceptor) (t : Transport) : Acceptor :=
  { a with phase := .running t, started := a.started ++ [t] }

def fail (a : Acceptor) (err : BoxError) : Acceptor := { a with phase := .ended err }

/-- A poll of the direct future: the accept and the whole handshake, polled before the timer. -/
def directNow (h : Handshake) (a : Acceptor) : Option (Except BoxError Unit) :=
  match h.incoming, h.listener, h.listenerClosed with
  | true, some (.ok ()), _ => some (.ok ())
  | true, some (.error e), _ => some (.error (.foreign e))
  | false, _, true => some (.error (.text "channel listener closed with no incoming"))
  | _, _, _ =>
    if a.acceptTimedOut then some (.error (.text ("no direct connection within " ++ a.acceptTimeout)))
    else none

/-- What the direct future has come to, or comes to when it is polled now. -/
def directAtHand (h : Handshake) (a : Acceptor) : Option (Except BoxError Unit) :=
  match a.direct with
  | some handshaken => some handshaken
  | none => a.directNow h

/-- The relay leg has failed with `relayErr`: only the direct path is left. -/
def pollAwaitsDirect (h : Handshake) (relayErr : BoxError) (a : Acceptor) : Acceptor :=
  match a.directNow h with
  | none => { a with phase := .awaitsDirect relayErr }
  | some (.ok ()) => { a with direct := some (.ok ()) }.start .direct
  | some (.error directErr) => { a with direct := some (.error directErr) }.fail relayErr

def abandonedEarly : BoxError := .text "relay leg abandoned before the race was decided (#22)"

/-- The direct path gave up: only the relay leg is left. -/
def pollAwaitsRelay (a : Acceptor) : Acceptor :=
  let a := { a with leg := a.leg.poll false }
  match a.leg.result with
  | none => { a with phase := .awaitsRelay }
  | some (.ok (.admitted _)) => a.start .relay
  | some (.ok .abandoned) => a.fail abandonedEarly
  | some (.error e) => a.fail e

def pollClosesAdmitted (a : Acceptor) (leg : ParkedRelayLeg) : Acceptor :=
  match a.leg.pollClose leg with
  | none => { a with phase := .closesAdmitted leg }
  | some closed => { a with leg := closed }.start .direct

/-- Direct won while the leg was live: the signal is sent, and the leg has a bounded time to follow it. -/
def pollClosing (a : Acceptor) : Acceptor :=
  let a := { a with leg := a.leg.poll true }
  match a.leg.result with
  | some (.ok (.admitted leg)) => a.pollClosesAdmitted leg
  | some (.ok .abandoned) | some (.error _) => a.start .direct
  | none =>
    if a.closeWaitOver then a.start .direct
    else { a with phase := .closing }

/-- The biased select: the relay leg is looked at before the direct future. -/
def pollRacing (h : Handshake) (a : Acceptor) : Acceptor :=
  let a := { a with leg := a.leg.poll false }
  match a.leg.result with
  | some (.ok (.admitted _)) => a.start .relay
  | some (.ok .abandoned) => a.fail abandonedEarly
  | some (.error relayErr) => a.pollAwaitsDirect h relayErr
  | none =>
    match a.directNow h with
    | none => a
    | some (.ok ()) => { a with direct := some (.ok ()) }.pollClosing
    | some (.error directErr) => { a with direct := some (.error directErr) }.pollAwaitsRelay

def poll (h : Handshake) (a : Acceptor) : Acceptor :=
  match a.phase with
  | .racing => a.pollRacing h
  | .awaitsDirect relayErr => a.pollAwaitsDirect h relayErr
  | .awaitsRelay => a.pollAwaitsRelay
  | .closing => a.pollClosing
  | .closesAdmitted leg => a.pollClosesAdmitted leg
  | .running _ | .ended _ => a

end Acceptor

/-- A relay leg as the edge has it; a close reaches the edge some time after the member has done it. -/
inductive EdgeLeg where
  | unseen | parked | closed
  deriving DecidableEq, Repr

structure Edge where
  view : ChannelRole → EdgeLeg
  admitted : Bool

structure Pairing where
  initiator : Initiator
  acceptor : Acceptor
  handshake : Handshake
  edge : Edge

namespace Pairing

def leg (s : Pairing) : ChannelRole → Leg
  | .initiate => s.initiator.leg
  | .accept => s.acceptor.leg

def onLeg (s : Pairing) (role : ChannelRole) (f : Leg → Leg) : Pairing :=
  match role with
  | .initiate => { s with initiator := { s.initiator with leg := f s.initiator.leg } }
  | .accept => { s with acceptor := { s.acceptor with leg := f s.acceptor.leg } }

def onView (s : Pairing) (role : ChannelRole) (v : EdgeLeg) : Pairing :=
  { s with edge := { s.edge with view := fun r => if r = role then v else s.edge.view r } }

/-- What the two members bring to the pairing. -/
structure Setup where
  peerRelayOnly : Bool
  acceptTimeout : String
  route : ChannelRole → RelayRoute
  pairBoundSecs : ChannelRole → ℕ

def initial (c : Setup) : Pairing where
  initiator := ⟨c.peerRelayOnly, .unpolled, false, .new (c.route .initiate) (c.pairBoundSecs .initiate), []⟩
  acceptor :=
    ⟨c.acceptTimeout, .racing, false, none, .new (c.route .accept) (c.pairBoundSecs .accept), false, []⟩
  handshake := ⟨none, false, false, none⟩
  edge := ⟨fun _ => .unseen, false⟩

end Pairing

/-- What can happen between two polls, and the polls. -/
inductive Event where
  | pollInitiator
  | pollAcceptor
  -- the direct handshake
  | incoming
  | listenerCloses
  | dialerCompletes
  | dialerFails (e : ForeignError)
  | listenerCompletes
  | listenerFails (e : ForeignError)
  -- the relay legs and the edge
  | dialed (role : ChannelRole) (left : Except BoxError Unit)
  | parks (role : ChannelRole)
  | seesClosed (role : ChannelRole)
  | admits
  | answers (role : ChannelRole) (presented : Except ForeignError ChannelJoinOutcome)
  | shuts (role : ChannelRole)
  -- the timers
  | dialTimeout
  | acceptTimeout
  | pairBound (role : ChannelRole)
  | shutBound (role : ChannelRole)
  | closeWait

namespace Pairing

/-- The dial is under way: before its future is dropped by the timeout. -/
def dialing (s : Pairing) : Bool :=
  match s.initiator.phase with
  | .dialing => true
  | _ => false

/-- A transport can fail at any time, the edge answers a join that was sent, and it answers `Admitted`
only behind the pairing. -/
def mayAnswer (s : Pairing) (role : ChannelRole) : Except ForeignError ChannelJoinOutcome → Bool
  | .error _ => true
  | .ok (.admitted ..) => s.edge.admitted
  | .ok (.refused _) | .ok .parkExpired => (s.leg role).joined

/-- A bounded shutdown is under way on the leg. -/
def shutsDown (s : Pairing) (role : ChannelRole) : Bool :=
  match (s.leg role).phase, role, s.acceptor.phase with
  | .closing _, _, _ => true
  | _, .accept, .closesAdmitted _ => true
  | _, _, _ => false

def bothParked (s : Pairing) : Bool := s.edge.view .initiate = .parked ∧ s.edge.view .accept = .parked

/-- A step that only some states allow. -/
def allow (guard : Bool) (t : Pairing) : Option Pairing := if guard then some t else none

theorem allow_eq_some {guard : Bool} {t t' : Pairing} : allow guard t = some t' ↔ guard = true ∧ t = t' := by
  unfold allow
  split
  · rename_i h
    simp [h]
  · rename_i h
    simp [h]

def step (s : Pairing) : Event → Option Pairing
  | .pollInitiator => some { s with initiator := s.initiator.poll s.handshake }
  | .pollAcceptor => some { s with acceptor := s.acceptor.poll s.handshake }
  | .incoming => some { s with handshake := { s.handshake with incoming := true } }
  | .listenerCloses => some { s with handshake := { s.handshake with listenerClosed := true } }
  | .dialerCompletes =>
    allow (s.dialing && s.handshake.incoming && s.handshake.dialer.isNone)
      { s with handshake := { s.handshake with dialer := some (.ok ()) } }
  | .dialerFails e =>
    allow s.handshake.dialer.isNone { s with handshake := { s.handshake with dialer := some (.error e) } }
  -- the handshake completes at the dialer first
  | .listenerCompletes =>
    allow (s.handshake.dialerDone && s.handshake.listener.isNone)
      { s with handshake := { s.handshake with listener := some (.ok ()) } }
  | .listenerFails e =>
    allow (s.handshake.incoming && s.handshake.listener.isNone)
      { s with handshake := { s.handshake with listener := some (.error e) } }
  | .dialed role left => some (s.onLeg role fun l => { l with dials := l.dials ++ [left] })
  | .parks role =>
    allow ((s.leg role).joined && s.edge.view role = .unseen) (s.onView role .parked)
  -- a close has come, or the park is reaped
  | .seesClosed role => some (s.onView role .closed)
  | .admits => allow s.bothParked { s with edge := { s.edge with admitted := true } }
  | .answers role presented =>
    allow ((s.leg role).answer.isNone && s.mayAnswer role presented)
      (s.onLeg role fun l => { l with answer := some presented })
  | .shuts role => some (s.onLeg role fun l => { l with shut := true })
  | .dialTimeout => allow s.dialing { s with initiator := { s.initiator with dialTimedOut := true } }
  | .acceptTimeout => some { s with acceptor := { s.acceptor with acceptTimedOut := true } }
  | .pairBound role =>
    allow ((s.leg role).phase matches .presented .stream)
      (s.onLeg role fun l => { l with pairBoundOver := true })
  | .shutBound role => allow (s.shutsDown role) (s.onLeg role fun l => { l with shutBoundOver := true })
  | .closeWait =>
    allow (s.acceptor.phase matches .closing) { s with acceptor := { s.acceptor with closeWaitOver := true } }

end Pairing
end CtAgent.Channel.Race
