import CtAgent.Channel.RelayFraming

/-! `park_relay_leg_until` as the future it is: each poll runs it as far as what is at hand lets it go.
Every await on the way looks at the abandon signal before anything else. -/
namespace CtAgent.Channel.Race
open CtAgent.Lib CtAgent.Admission

/-- The relay transport before anything has happened on it. -/
inductive RelayRoute where
  | quic
  | quicLazy
  | ladder (rungs : List ChannelDialKind)
  deriving DecidableEq, Repr

inductive RelayLegPark where
  | admitted (leg : ParkedRelayLeg)
  | abandoned
  deriving DecidableEq, Repr

/-- The transport of a leg, as this member has left it. `closeTimedOut`: the shutdown of a `:443` leg
did not finish within `RELAY_LEG_CLOSE_TIMEOUT`. -/
inductive LegConn where
  | unopened | opened | closed | closeTimedOut
  deriving DecidableEq, Repr

/-- The await a leg is at. The first of the rungs is the one that is dialed. -/
inductive LegPhase where
  | unpolled
  | lazyDial
  | dialing (rungs : List ChannelDialKind) (last : Option BoxError)
  | presented (leg : ParkedRelayLeg)
  | closing (result : Except BoxError RelayLegPark)
  | done (result : Except BoxError RelayLegPark)

/-- `dials` holds what the dials have left and the leg has not looked at, in the order of the rungs;
`joined`: the join was sent. -/
structure Leg where
  route : RelayRoute
  pairBoundSecs : ℕ
  phase : LegPhase
  conn : LegConn
  joined : Bool
  dials : List (Except BoxError Unit)
  answer : Option (Except ForeignError ChannelJoinOutcome)
  pairBoundOver : Bool
  shut : Bool
  shutBoundOver : Bool

namespace Leg

def new (route : RelayRoute) (pairBoundSecs : ℕ) : Leg where
  route := route
  pairBoundSecs := pairBoundSecs
  phase := .unpolled
  conn := .unopened
  joined := false
  dials := []
  answer := none
  pairBoundOver := false
  shut := false
  shutBoundOver := false

def result (l : Leg) : Option (Except BoxError RelayLegPark) :=
  match l.phase with
  | .done result => some result
  | _ => none

/-- `close_stream_relay_leg`, and what the leg returns behind it. -/
def pollShutdown (result : Except BoxError RelayLegPark) (l : Leg) : Leg :=
  if l.shut then { l with conn := .closed, phase := .done result }
  else if l.shutBoundOver then { l with conn := .closeTimedOut, phase := .done result }
  else { l with phase := .closing result }

/-- `park_relay_leg_on_quic` -/
def pollQuic (abandon : Bool) (l : Leg) : Leg :=
  if abandon then { l with conn := .closed, phase := .done (.ok .abandoned) }
  else
    match l.answer with
    | none => { l with joined := true, phase := .presented .quic }
    | some presented =>
      { l with
        joined := true
        phase := .done ((relayOutcome "edge relay refused the channel join" .quic presented).map .admitted) }

/-- A `:443` rung once it is connected. -/
def pollStream (abandon : Bool) (l : Leg) : Leg :=
  if abandon then l.pollShutdown (.ok .abandoned)
  else if l.pairBoundOver then l.pollShutdown (.error (relayPairTimeout l.pairBoundSecs))
  else
    match l.answer with
    | none => { l with joined := true, phase := .presented .stream }
    | some presented =>
      { l with
        joined := true
        phase := .done ((relayOutcome "edge relay refused the channel join over the :443 front door" .stream
          presented).map .admitted) }

def pollPresented (abandon : Bool) (l : Leg) : ParkedRelayLeg → Leg
  | .quic => l.pollQuic abandon
  | .stream => l.pollStream abandon

def legOf (kind : ChannelDialKind) : ParkedRelayLeg :=
  if kind.isFrontDoor then .stream else .quic

/-- The walk of `park_relay_leg_via_ladder` from the rung that is dialed now. -/
def pollRungs (abandon : Bool) (l : Leg) (last : Option BoxError) : List ChannelDialKind → Leg
  | [] => { l with phase := .done (.error (last.getD (.text "relay ladder had no rungs to dial"))) }
  | kind :: rungs =>
    -- the dial is dropped
    if abandon then { l with phase := .done (.ok .abandoned) }
    else
      match l.dials with
      | [] => { l with phase := .dialing (kind :: rungs) last }
      | .ok () :: dials => { l with dials := dials, conn := .opened }.pollPresented abandon (legOf kind)
      | .error e :: dials => { l with dials := dials }.pollRungs abandon (some e) rungs

/-- The dial of `QuicLazy`. -/
def pollLazyDial (abandon : Bool) (l : Leg) : Leg :=
  if abandon then { l with phase := .done (.ok .abandoned) }
  else
    match l.dials with
    | [] => { l with phase := .lazyDial }
    | .ok () :: dials => { l with dials := dials, conn := .opened }.pollQuic abandon
    | .error e :: dials => { l with dials := dials, phase := .done (.error e) }

def poll (abandon : Bool) (l : Leg) : Leg :=
  match l.phase with
  | .unpolled =>
    match l.route with
    | .quic => { l with conn := .opened }.pollQuic abandon
    | .quicLazy => l.pollLazyDial abandon
    | .ladder rungs => l.pollRungs abandon none rungs
  | .lazyDial => l.pollLazyDial abandon
  | .dialing rungs last => l.pollRungs abandon last rungs
  | .presented leg => l.pollPresented abandon leg
  | .closing result => l.pollShutdown result
  | .done _ => l

/-- `ParkedRelayLeg::close` on the admitted leg, polled until it is through. -/
def pollClose (l : Leg) : ParkedRelayLeg → Option Leg
  | .quic => some { l with conn := .closed }
  | .stream =>
    if l.shut then some { l with conn := .closed }
    else if l.shutBoundOver then some { l with conn := .closeTimedOut }
    else none

/-- The edge has answered that it paired this member and spliced the leg. -/
def answeredAdmitted (l : Leg) : Bool :=
  match l.answer with
  | some (.ok (.admitted ..)) => true
  | _ => false

def Failed (l : Leg) : Prop := ∃ e, l.phase = .done (.error e)

/-- The transport was closed, or the dial was dropped before there was one. -/
def Closed (l : Leg) : Prop :=
  l.conn = .closed ∨ l.conn = .unopened ∧ l.phase = .done (.ok .abandoned)

/-- No abandon signal was ever followed on this leg. -/
def Unabandoned (l : Leg) : Prop :=
  l.phase ≠ .closing (.ok .abandoned) ∧ l.phase ≠ .done (.ok .abandoned)

/-- What every leg keeps, whatever happens on its transport. -/
structure Sound (l : Leg) : Prop where
  unopened : (l.phase = .unpolled ∨ l.phase = .lazyDial ∨ ∃ rungs last, l.phase = .dialing rungs last) →
    l.conn = .unopened
  closing : ∀ leg, l.phase ≠ .closing (.ok (.admitted leg))
  admitted : ∀ leg, l.phase = .done (.ok (.admitted leg)) → l.answeredAdmitted = true
  abandoned : l.phase = .done (.ok .abandoned) → l.conn ≠ .opened

theorem new_sound (route : RelayRoute) (pairBoundSecs : ℕ) : (new route pairBoundSecs).Sound where
  unopened _ := rfl
  closing _ h := nomatch h
  admitted _ h := nomatch h
  abandoned h := nomatch h

theorem new_unabandoned (route : RelayRoute) (pairBoundSecs : ℕ) : (new route pairBoundSecs).Unabandoned :=
  ⟨nofun, nofun⟩

/-- A leg is admitted by its outcome only where the edge has said so. -/
theorem relayOutcome_admitted {refusal : String} {leg leg' : ParkedRelayLeg}
    {presented : Except ForeignError ChannelJoinOutcome}
    (h : (relayOutcome refusal leg presented).map RelayLegPark.admitted = .ok (.admitted leg')) :
    ∃ endpoint noise holder attestation, presented = .ok (.admitted endpoint noise holder attestation) := by
  unfold relayOutcome at h
  split at h
  · exact absurd h nofun
  · exact absurd h nofun
  · exact absurd h nofun
  · exact ⟨_, _, _, _, rfl⟩

theorem relayOutcome_ne_abandoned (refusal : String) (leg : ParkedRelayLeg)
    (presented : Except ForeignError ChannelJoinOutcome) :
    (relayOutcome refusal leg presented).map RelayLegPark.admitted ≠ .ok .abandoned := by
  unfold relayOutcome
  split <;> exact nofun

/-- A leg that ends on an answer of the edge. -/
theorem answered_sound {l : Leg} {refusal : String} {leg : ParkedRelayLeg}
    {presented : Except ForeignError ChannelJoinOutcome} (hanswer : l.answer = some presented)
    (hphase : l.phase = .done ((relayOutcome refusal leg presented).map .admitted)) : l.Sound where
  unopened h := by simp [hphase] at h
  closing leg' h := by simp [hphase] at h
  admitted leg' h := by
    rw [hphase, LegPhase.done.injEq] at h
    obtain ⟨endpoint, noise, holder, attestation, rfl⟩ := relayOutcome_admitted h
    rw [answeredAdmitted, hanswer]
  abandoned h := by
    rw [hphase, LegPhase.done.injEq] at h
    exact absurd h (relayOutcome_ne_abandoned refusal leg presented)

/-- The answer of the edge stays, and a join that was sent is sent. -/
structure Carried (l l' : Leg) : Prop where
  answer : l'.answer = l.answer
  joined : l.joined = true → l'.joined = true

theorem Carried.refl (l : Leg) : Carried l l := ⟨rfl, id⟩

theorem Carried.trans {l l' l'' : Leg} (h : Carried l l') (h' : Carried l' l'') : Carried l l'' where
  answer := h'.answer.trans h.answer
  joined hl := h'.joined (h.joined hl)

theorem Carried.answeredAdmitted {l l' : Leg} (h : Carried l l') :
    l'.answeredAdmitted = l.answeredAdmitted := by
  unfold Leg.answeredAdmitted
  rw [h.answer]

/-- What a poll of a leg leaves; without the signal nothing is abandoned. -/
structure Polled (abandon : Bool) (l l' : Leg) : Prop extends Carried l l' where
  sound : l'.Sound
  unabandoned : abandon = false → l'.Unabandoned

theorem pollShutdown_polled {abandon : Bool} {result : Except BoxError RelayLegPark} (l : Leg)
    (hadmitted : ∀ leg, result ≠ .ok (.admitted leg))
    (habandoned : abandon = false → result ≠ .ok .abandoned) :
    Polled abandon l (l.pollShutdown result) := by
  unfold pollShutdown
  split
  · refine ⟨⟨rfl, id⟩, ?_, fun h => ⟨nofun, ?_⟩⟩
    · constructor <;> simp [hadmitted]
    · simpa using habandoned h
  · split
    · refine ⟨⟨rfl, id⟩, ?_, fun h => ⟨nofun, ?_⟩⟩
      · constructor <;> simp [hadmitted]
      · simpa using habandoned h
    · refine ⟨⟨rfl, id⟩, ?_, fun h => ⟨?_, nofun⟩⟩
      · constructor <;> simp [hadmitted]
      · simpa using habandoned h

/-- A leg that ends on an answer of the edge. -/
theorem answered_polled {abandon : Bool} {l l' : Leg} {refusal : String} {leg : ParkedRelayLeg}
    {presented : Except ForeignError ChannelJoinOutcome} (hl : l.answer = some presented)
    (hanswer : l'.answer = some presented) (hjoined : l'.joined = true)
    (hphase : l'.phase = .done ((relayOutcome refusal leg presented).map .admitted)) :
    Polled abandon l l' where
  answer := by rw [hanswer, hl]
  joined _ := hjoined
  sound := answered_sound hanswer hphase
  unabandoned _ := by
    constructor
    · rw [hphase]
      exact nofun
    · rw [hphase, ne_eq, LegPhase.done.injEq]
      exact relayOutcome_ne_abandoned refusal leg presented

theorem pollQuic_polled (abandon : Bool) (l : Leg) : Polled abandon l (l.pollQuic abandon) := by
  unfold pollQuic
  split
  · rename_i habandon
    refine ⟨⟨rfl, id⟩, ?_, fun h => absurd (habandon.symm.trans h) nofun⟩
    constructor <;> simp
  · split
    · refine ⟨⟨rfl, fun _ => rfl⟩, ?_, fun _ => ⟨nofun, nofun⟩⟩
      constructor <;> simp
    · rename_i presented hanswer
      exact answered_polled hanswer hanswer rfl rfl

theorem pollStream_polled (abandon : Bool) (l : Leg) : Polled abandon l (l.pollStream abandon) := by
  unfold pollStream
  split
  · rename_i habandon
    exact pollShutdown_polled l nofun (fun h => absurd (habandon.symm.trans h) nofun)
  · split
    · exact pollShutdown_polled l nofun (fun _ => nofun)
    · split
      · refine ⟨⟨rfl, fun _ => rfl⟩, ?_, fun _ => ⟨nofun, nofun⟩⟩
        constructor <;> simp
      · rename_i presented hanswer
        exact answered_polled hanswer hanswer rfl rfl

theorem pollPresented_polled (abandon : Bool) (l : Leg) (leg : ParkedRelayLeg) :
    Polled abandon l (l.pollPresented abandon leg) := by
  cases leg with
  | quic => exact pollQuic_polled abandon l
  | stream => exact pollStream_polled abandon l

/-- A poll sees nothing of a leg but its answer and whether it has joined. -/
theorem Polled.of_eq {abandon : Bool} {l l₀ l' : Leg} (h : Polled abandon l₀ l')
    (hanswer : l₀.answer = l.answer)
    (hjoined : l₀.joined = l.joined) : Polled abandon l l' where
  answer := h.answer.trans hanswer
  joined hl := h.joined (hjoined ▸ hl)
  sound := h.sound
  unabandoned := h.unabandoned

theorem pollRungs_polled {abandon : Bool} {l : Leg} {last : Option BoxError} {rungs : List ChannelDialKind}
    (hconn : l.conn = .unopened) : Polled abandon l (l.pollRungs abandon last rungs) := by
  induction rungs generalizing l last with
  | nil =>
    refine ⟨⟨rfl, id⟩, ?_, fun _ => ⟨nofun, nofun⟩⟩
    constructor <;> simp [pollRungs]
  | cons kind rungs ih =>
    rw [pollRungs]
    split
    · rename_i habandon
      refine ⟨⟨rfl, id⟩, ?_, fun h => absurd (habandon.symm.trans h) nofun⟩
      constructor <;> simp [hconn]
    · split
      · refine ⟨⟨rfl, id⟩, ?_, fun _ => ⟨nofun, nofun⟩⟩
        constructor <;> simp [hconn]
      · exact (pollPresented_polled _ _ _).of_eq rfl rfl
      · rename_i e dials _
        have hrest : Polled abandon { l with dials := dials }
            (pollRungs abandon { l with dials := dials } (some e) rungs) := ih hconn
        exact hrest.of_eq rfl rfl

theorem pollLazyDial_polled {abandon : Bool} {l : Leg} (hconn : l.conn = .unopened) :
    Polled abandon l (l.pollLazyDial abandon) := by
  unfold pollLazyDial
  split
  · rename_i habandon
    refine ⟨⟨rfl, id⟩, ?_, fun h => absurd (habandon.symm.trans h) nofun⟩
    constructor <;> simp [hconn]
  · split
    · refine ⟨⟨rfl, id⟩, ?_, fun _ => ⟨nofun, nofun⟩⟩
      constructor <;> simp [hconn]
    · exact (pollQuic_polled _ _).of_eq rfl rfl
    · refine ⟨⟨rfl, id⟩, ?_, fun _ => ⟨nofun, nofun⟩⟩
      constructor <;> simp

/-- A leg that follows the signal, or one it was never followed on. -/
theorem Sound.poll {l : Leg} (h : l.Sound) {abandon : Bool} (hsignal : abandon = false → l.Unabandoned) :
    Polled abandon l (l.poll abandon) := by
  unfold Leg.poll
  split
  · rename_i hphase
    have hconn := h.unopened (.inl hphase)
    split
    · exact (pollQuic_polled _ _).of_eq rfl rfl
    · exact pollLazyDial_polled hconn
    · exact pollRungs_polled hconn
  · rename_i hphase
    exact pollLazyDial_polled (h.unopened (.inr (.inl hphase)))
  · rename_i rungs last hphase
    exact pollRungs_polled (h.unopened (.inr (.inr ⟨rungs, last, hphase⟩)))
  · exact pollPresented_polled _ _ _
  · rename_i result hphase
    apply pollShutdown_polled
    · intro leg hresult
      exact h.closing leg (hresult ▸ hphase)
    · intro hquiet hresult
      exact (hsignal hquiet).1 (hresult ▸ hphase)
  · exact ⟨.refl l, h, hsignal⟩

theorem Sound.pollQuiet {l : Leg} (h : l.Sound) (hquiet : l.Unabandoned) : Polled false l (l.poll false) :=
  h.poll (fun _ => hquiet)

theorem Sound.pollSignal {l : Leg} (h : l.Sound) : Polled true l (l.poll true) := h.poll nofun

theorem result_eq_some {l : Leg} {result : Except BoxError RelayLegPark} :
    l.result = some result ↔ l.phase = .done result := by
  unfold Leg.result
  split
  · rename_i result' hphase
    rw [hphase, Option.some.injEq, LegPhase.done.injEq]
  · rename_i hphase
    constructor
    · exact nofun
    · intro h
      exact absurd h (hphase result)

theorem result_eq_none {l : Leg} : l.result = none ↔ ∀ result, l.phase ≠ .done result := by
  rw [Option.eq_none_iff_forall_ne_some]
  exact forall_congr' (fun result => not_congr result_eq_some)

/-- A finished leg stays as it is. -/
theorem poll_of_done {l : Leg} {result : Except BoxError RelayLegPark} (h : l.phase = .done result)
    (abandon : Bool) : l.poll abandon = l := by
  unfold Leg.poll
  rw [h]

end Leg

/-- What the dial of a rung leaves. -/
def dialLeft (r : RelayRung) : Except BoxError Unit :=
  if r.rung.kind.isFrontDoor then
    match r.rung.frontDoor with
    | .ok () => .ok ()
    | .error e => .error (.foreign e)
  else
    match r.rung.direct with
    | .connected => .ok ()
    | .timedOut => .error (.dial .unreachable)
    | .failed e => .error (.foreign e)

/-- The rung the walk ends on. -/
def connects : List RelayRung → Option RelayRung
  | [] => none
  | r :: rungs =>
    match dialLeft r with
    | .ok () => some r
    | .error _ => connects rungs

/-- What `park_relay_leg_via_ladder` comes to on a rung that has connected. -/
def onRung (pairBoundSecs : ℕ) (r : RelayRung) : Except BoxError ParkedRelayLeg :=
  if r.rung.kind.isFrontDoor then
    if r.pairTimedOut then .error (relayPairTimeout pairBoundSecs)
    else relayOutcome "edge relay refused the channel join over the :443 front door" .stream r.rung.exchange
  else parkRelayLegOnQuic r.rung.exchange

theorem parkRelayLegViaLadder_cons (pairBoundSecs : ℕ) (last : Option BoxError) (r : RelayRung)
    (rungs : List RelayRung) :
    parkRelayLegViaLadder pairBoundSecs last (r :: rungs) =
      match dialLeft r with
      | .ok () => onRung pairBoundSecs r
      | .error e => parkRelayLegViaLadder pairBoundSecs (some e) rungs := by
  rw [parkRelayLegViaLadder]
  unfold dialLeft onRung
  split
  · cases r.rung.frontDoor <;> rfl
  · cases r.rung.direct <;> rfl

/-- A relay transport with everything on it at hand. -/
def atHand (pairBoundSecs : ℕ) : RelayFallback → Leg
  | .quic presented => { Leg.new .quic pairBoundSecs with answer := some presented }
  | .quicLazy dial presented =>
    { Leg.new .quicLazy pairBoundSecs with
      dials := [dial.mapError BoxError.foreign]
      answer := some presented }
  | .ladder rungs bound =>
    { Leg.new (.ladder (rungs.map (·.rung.kind))) bound with
      dials := rungs.map dialLeft
      answer := (connects rungs).map (·.rung.exchange)
      pairBoundOver := (connects rungs).any (·.pairTimedOut)
      shut := true }

namespace Leg

theorem pollQuic_atHand {l : Leg} {presented : Except ForeignError ChannelJoinOutcome}
    (h : l.answer = some presented) :
    (l.pollQuic false).result = some ((parkRelayLegOnQuic presented).map .admitted) := by
  unfold pollQuic
  simp only [Bool.false_eq_true, if_false]
  rw [h]
  rfl

theorem pollPresented_atHand {l : Leg} {r : RelayRung} (hshut : l.shut = true)
    (hanswer : l.answer = some r.rung.exchange) (hbound : l.pairBoundOver = r.pairTimedOut) :
    (l.pollPresented false (legOf r.rung.kind)).result = some ((onRung l.pairBoundSecs r).map .admitted) := by
  unfold legOf onRung
  split
  · simp only [pollPresented, pollStream, Bool.false_eq_true, if_false, hbound, hanswer]
    split
    · simp only [pollShutdown, hshut, if_true]
      rfl
    · rfl
  · exact pollQuic_atHand hanswer

/-- With everything at hand a leg comes to what the walk comes to at once. -/
theorem pollRungs_atHand {l : Leg} {last : Option BoxError} {rungs : List RelayRung} (hshut : l.shut = true)
    (hdials : l.dials = rungs.map dialLeft)
    (hrung : ∀ r, connects rungs = some r →
      l.answer = some r.rung.exchange ∧ l.pairBoundOver = r.pairTimedOut) :
    (l.pollRungs false last (rungs.map (·.rung.kind))).result
      = some ((parkRelayLegViaLadder l.pairBoundSecs last rungs).map .admitted) := by
  induction rungs generalizing l last with
  | nil => rfl
  | cons r rungs ih =>
    rw [List.map_cons] at hdials
    rw [List.map_cons, pollRungs, parkRelayLegViaLadder_cons, hdials]
    rw [connects] at hrung
    cases hleft : dialLeft r with
    | ok u =>
      rw [hleft] at hrung
      obtain ⟨hanswer, hbound⟩ := hrung r rfl
      exact pollPresented_atHand (l := { l with dials := rungs.map dialLeft, conn := .opened })
        hshut hanswer hbound
    | error e =>
      rw [hleft] at hrung
      exact ih (l := { l with dials := rungs.map dialLeft }) hshut rfl hrung

/-- The polled leg is the leg of the join, where nothing is left to wait for. -/
theorem poll_atHand (pairBoundSecs : ℕ) (relay : RelayFallback) :
    ((atHand pairBoundSecs relay).poll false).result = some ((parkRelayLeg relay).map .admitted) := by
  cases relay with
  | quic presented => exact pollQuic_atHand rfl
  | quicLazy dial presented =>
    cases dial with
    | ok u =>
      have hanswer : Leg.answer
          { Leg.new .quicLazy pairBoundSecs with answer := some presented, conn := .opened } =
            some presented := rfl
      exact pollQuic_atHand hanswer
    | error e => rfl
  | ladder rungs bound =>
    apply pollRungs_atHand rfl rfl
    intro r hr
    simp [atHand, hr]

end Leg
end CtAgent.Channel.Race
