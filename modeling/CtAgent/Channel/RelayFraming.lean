import CtAgent.Admission.Ladder
import CtAgent.Lib.NetAddr

/-! How each member of a relayed pair comes to the framing of its session: from its switch, from the
address the edge saw it on and from the transport of its relay leg. Nothing of it is negotiated. -/
namespace CtAgent.Channel
open CtAgent.Lib CtAgent.Admission

/-- The tagged frames of the upgradable session, or the plain session. -/
inductive Framing where
  | tagged | plain
  deriving DecidableEq, Repr

/-- The transport of a leg the edge has paired and spliced. -/
inductive ParkedRelayLeg where
  | quic | stream
  deriving DecidableEq, Repr

/-- A rung of the relay ladder; `pairTimedOut`: no partner within the pair bound of a `:443` leg. -/
structure RelayRung where
  rung : ChannelDialRung
  pairTimedOut : Bool

/-- The relay transport with what happens on it. -/
inductive RelayFallback where
  | quic (presented : Except ForeignError ChannelJoinOutcome)
  | quicLazy (dial : Except ForeignError Unit) (presented : Except ForeignError ChannelJoinOutcome)
  | ladder (rungs : List RelayRung) (pairBoundSecs : ℕ)

def relayParkExpired : BoxError :=
  .parkExpired "edge relay park expired with no partner within the park window (#21) -- re-park the relay leg"

/-- The match on the outcome of a presented relay join. -/
def relayOutcome (refusal : String) (leg : ParkedRelayLeg)
    (presented : Except ForeignError ChannelJoinOutcome) :
    Except BoxError ParkedRelayLeg :=
  match presented with
  | .error e => .error (.foreign e)
  | .ok (.refused category) => .error (boxedWithCategory refusal category)
  | .ok .parkExpired => .error relayParkExpired
  | .ok (.admitted ..) => .ok leg

def parkRelayLegOnQuic (presented : Except ForeignError ChannelJoinOutcome) : Except BoxError ParkedRelayLeg :=
  relayOutcome "edge relay refused the channel join" .quic presented

def relayPairTimeout (secs : ℕ) : BoxError :=
  .text s!"relay leg found no partner within {secs}s -- closed it (CT_CHANNEL_RELAY_PAIR_SECS)"

/-- `last` is the error of the rung tried last; a rung that connects is the end of the walk. -/
def parkRelayLegViaLadder (pairBoundSecs : ℕ) (last : Option BoxError) :
    List RelayRung → Except BoxError ParkedRelayLeg
  | [] => .error (last.getD (.text "relay ladder had no rungs to dial"))
  | r :: rungs =>
    if r.rung.kind.isFrontDoor then
      match r.rung.frontDoor with
      | .error e => parkRelayLegViaLadder pairBoundSecs (some (.foreign e)) rungs
      | .ok () =>
        if r.pairTimedOut then .error (relayPairTimeout pairBoundSecs)
        else relayOutcome "edge relay refused the channel join over the :443 front door"
          .stream r.rung.exchange
    else
      match r.rung.direct with
      | .connected => parkRelayLegOnQuic r.rung.exchange
      | .timedOut => parkRelayLegViaLadder pairBoundSecs (some (.dial .unreachable)) rungs
      | .failed e => parkRelayLegViaLadder pairBoundSecs (some (.foreign e)) rungs

def parkRelayLeg : RelayFallback → Except BoxError ParkedRelayLeg
  | .quic presented => parkRelayLegOnQuic presented
  | .quicLazy (.error e) _ => .error (.foreign e)
  | .quicLazy (.ok ()) presented => parkRelayLegOnQuic presented
  | .ladder rungs pairBoundSecs => parkRelayLegViaLadder pairBoundSecs none rungs

/-- The bound endpoint of a member that takes part in the upgrade. -/
structure DirectUpgrade where
  reflexiveEdge : Option String
  deriving DecidableEq, Repr

/-- One member as it stands after its admission: its switches, what the edge reported and what its
dials, timers and transports do. `binds`: `build_channel_endpoint` succeeds. -/
structure Member where
  role : ChannelRole
  directUpgrade : Bool
  acceptRace : Bool
  observedReflexive : Option SocketAddr
  reflexiveEdge : Option String
  binds : Bool
  peerRelayOnly : Bool
  dial : DirectDial
  listener : Bool
  ownReachable : Bool
  accept : Except BoxError Bool
  relayFirst : Bool
  relay : RelayFallback

section
variable (isGlobalUnicast : SocketAddr → Bool)

def buildUpgradeCandidate (observed : Option SocketAddr) (reflexiveEdge : Option String) (binds : Bool) :
    Option DirectUpgrade :=
  match observed with
  | none => none
  | some addr => if !isGlobalUnicast addr then none else if binds then some ⟨reflexiveEdge⟩ else none

/-- The initiator tags where it has a listener to offer, the responder in any case. -/
def runUpgradableRelaySession (role : ChannelRole) (directListener : Option DirectUpgrade) : Framing :=
  match role, directListener with
  | .initiate, none => .plain
  | .initiate, some _ => .tagged
  | .accept, _ => .tagged

def ParkedRelayLeg.runSession (leg : ParkedRelayLeg) (role : ChannelRole) (upgrade : Option DirectUpgrade) :
    Framing :=
  match leg, upgrade with
  | .quic, some upgrade => runUpgradableRelaySession role (some upgrade)
  | .quic, none => .plain
  | .stream, _ => .plain

/-- The session a member starts: direct, or on its relay leg with a framing. -/
inductive Started where
  | direct
  | relayed (framing : Framing)
  deriving DecidableEq, Repr

def Member.joinViaRelayFallback (m : Member) (upgrade : Option DirectUpgrade) : Except BoxError Started :=
  match parkRelayLeg m.relay with
  | .error e => .error e
  | .ok leg => .ok (.relayed (leg.runSession m.role upgrade))

/-- `race_accept_against_relay`: which side of the race is first to be ready comes in with the member. -/
def Member.raceAcceptAgainstRelay (m : Member) (upgrade : Option DirectUpgrade) : Except BoxError Started :=
  match m.relayFirst, parkRelayLeg m.relay, m.accept with
  | true, .ok leg, _ => .ok (.relayed (leg.runSession .accept upgrade))
  | true, .error _, .ok true => .ok .direct
  | true, .error e, _ => .error e
  | false, _, .ok true => .ok .direct
  | false, .ok leg, _ => .ok (.relayed (leg.runSession .accept upgrade))
  | false, .error e, _ => .error e

/-- `run_channel_join_with_admission` behind the admission; `accept` is whether a connection came in the
window, or the error of one that did. -/
def Member.run (m : Member) : Except BoxError Started :=
  let upgrade :=
    if m.directUpgrade then buildUpgradeCandidate isGlobalUnicast m.observedReflexive m.reflexiveEdge m.binds
    else none
  match m.role with
  | .initiate =>
    if m.peerRelayOnly then m.joinViaRelayFallback upgrade
    else
      match m.dial with
      | .connected => .ok .direct
      | .timedOut => m.joinViaRelayFallback upgrade
      | .failed e => .error (.foreign e)
  | .accept =>
    if !m.listener then m.joinViaRelayFallback upgrade
    else if !m.ownReachable then m.joinViaRelayFallback upgrade
    else if m.acceptRace then m.raceAcceptAgainstRelay upgrade
    else
      match m.accept with
      | .ok true => .ok .direct
      | .ok false => m.joinViaRelayFallback upgrade
      | .error e => .error e

end

/-- The first rung whose transport connects is a QUIC one. -/
def firstConnectsQuic : List RelayRung → Bool
  | [] => false
  | r :: rungs =>
    match r.rung.kind.isFrontDoor, r.rung.frontDoor, r.rung.direct with
    | true, .ok (), _ => false
    | false, _, .connected => true
    | _, _, _ => firstConnectsQuic rungs

def RelayFallback.ridesQuic : RelayFallback → Bool
  | .quic _ | .quicLazy _ _ => true
  | .ladder rungs _ => firstConnectsQuic rungs

/-- What makes a member that asks for the upgrade take part in it. -/
def Member.takesPart (isGlobalUnicast : SocketAddr → Bool) (m : Member) : Bool :=
  m.observedReflexive.any isGlobalUnicast && m.binds && m.relay.ridesQuic

theorem relayOutcome_ok {refusal : String} {leg leg' : ParkedRelayLeg}
    {presented : Except ForeignError ChannelJoinOutcome} (h : relayOutcome refusal leg presented = .ok leg') :
    leg' = leg := by
  unfold relayOutcome at h
  split at h
  · exact absurd h nofun
  · exact absurd h nofun
  · exact absurd h nofun
  · exact (Except.ok.inj h).symm

/-- The leg of a ladder is the transport of the first rung that connects. -/
theorem parkRelayLegViaLadder_ok {pairBoundSecs : ℕ} {last : Option BoxError} {rungs : List RelayRung}
    {leg : ParkedRelayLeg} (h : parkRelayLegViaLadder pairBoundSecs last rungs = .ok leg) :
    leg = .quic ↔ firstConnectsQuic rungs = true := by
  induction rungs generalizing last with
  | nil => exact absurd h nofun
  | cons r rungs ih =>
    rw [parkRelayLegViaLadder] at h
    rw [firstConnectsQuic]
    split at h
    · rename_i hkind
      rw [hkind]
      split at h
      · rename_i e hdoor
        rw [hdoor]
        exact ih h
      · rename_i hdoor
        rw [hdoor]
        split at h
        · exact absurd h nofun
        · rw [relayOutcome_ok h]
          exact ⟨nofun, nofun⟩
    · rename_i hkind
      rw [Bool.not_eq_true] at hkind
      rw [hkind]
      split at h
      · rename_i hdial
        rw [hdial, relayOutcome_ok h]
        exact ⟨fun _ => rfl, fun _ => rfl⟩
      · rename_i hdial
        rw [hdial]
        exact ih h
      · rename_i e hdial
        rw [hdial]
        exact ih h

theorem parkRelayLeg_ok {relay : RelayFallback} {leg : ParkedRelayLeg} (h : parkRelayLeg relay = .ok leg) :
    leg = .quic ↔ relay.ridesQuic = true := by
  unfold parkRelayLeg at h
  split at h
  · exact ⟨fun _ => rfl, fun _ => relayOutcome_ok h⟩
  · exact absurd h nofun
  · exact ⟨fun _ => rfl, fun _ => relayOutcome_ok h⟩
  · exact parkRelayLegViaLadder_ok h

variable {isGlobalUnicast : SocketAddr → Bool}

theorem buildUpgradeCandidate_isSome {observed : Option SocketAddr} {reflexiveEdge : Option String}
    {binds : Bool} :
    (buildUpgradeCandidate isGlobalUnicast observed reflexiveEdge binds).isSome
      = (observed.any isGlobalUnicast && binds) := by
  unfold buildUpgradeCandidate
  cases observed with
  | none => rfl
  | some addr =>
    cases hglobal : isGlobalUnicast addr with
    | false => simp [hglobal]
    | true => cases binds <;> simp [hglobal]

/-- A session on a relay leg is tagged where the member rides QUIC and has its upgrade. -/
theorem runSession_tagged {relay : RelayFallback} {leg : ParkedRelayLeg} (hleg : parkRelayLeg relay = .ok leg)
    (role : ChannelRole) (upgrade : Option DirectUpgrade) :
    leg.runSession role upgrade = .tagged ↔ (upgrade.isSome && relay.ridesQuic) = true := by
  have hquic := parkRelayLeg_ok hleg
  cases leg with
  | quic =>
    rw [hquic.mp rfl, Bool.and_true]
    cases upgrade with
    | none => simp [ParkedRelayLeg.runSession]
    | some u => cases role <;> simp [ParkedRelayLeg.runSession, runUpgradableRelaySession]
  | stream =>
    have hnot : relay.ridesQuic = false := by
      rw [Bool.eq_false_iff]
      intro hrides
      exact absurd (hquic.mpr hrides) nofun
    simp [ParkedRelayLeg.runSession, hnot]

theorem Member.joinViaRelayFallback_relayed {m : Member} {upgrade : Option DirectUpgrade} {f : Framing}
    (h : m.joinViaRelayFallback upgrade = .ok (.relayed f)) :
    ∃ leg role, parkRelayLeg m.relay = .ok leg ∧ leg.runSession role upgrade = f := by
  unfold Member.joinViaRelayFallback at h
  split at h
  · exact absurd h nofun
  · rename_i leg hleg
    exact ⟨leg, m.role, hleg, Started.relayed.inj (Except.ok.inj h)⟩

theorem Member.raceAcceptAgainstRelay_relayed {m : Member} {upgrade : Option DirectUpgrade} {f : Framing}
    (h : m.raceAcceptAgainstRelay upgrade = .ok (.relayed f)) :
    ∃ leg role, parkRelayLeg m.relay = .ok leg ∧ leg.runSession role upgrade = f := by
  unfold Member.raceAcceptAgainstRelay at h
  split at h
  · rename_i leg _ hleg
    exact ⟨leg, .accept, hleg, Started.relayed.inj (Except.ok.inj h)⟩
  · exact absurd (Except.ok.inj h) nofun
  · exact absurd h nofun
  · exact absurd (Except.ok.inj h) nofun
  · rename_i leg _ hleg _
    exact ⟨leg, .accept, hleg, Started.relayed.inj (Except.ok.inj h)⟩
  · exact absurd h nofun

/-- Every way into a relay session leads through the same leg and the same upgrade. -/
theorem Member.run_relayed {m : Member} {f : Framing} (h : m.run isGlobalUnicast = .ok (.relayed f)) :
    ∃ leg role, parkRelayLeg m.relay = .ok leg ∧
      leg.runSession role (if m.directUpgrade then
        buildUpgradeCandidate isGlobalUnicast m.observedReflexive m.reflexiveEdge m.binds else none) = f := by
  unfold Member.run at h
  dsimp only at h
  split at h
  · split at h
    · exact Member.joinViaRelayFallback_relayed h
    · split at h
      · exact absurd (Except.ok.inj h) nofun
      · exact Member.joinViaRelayFallback_relayed h
      · exact absurd h nofun
  · split at h
    · exact Member.joinViaRelayFallback_relayed h
    · split at h
      · exact Member.joinViaRelayFallback_relayed h
      · split at h
        · exact Member.raceAcceptAgainstRelay_relayed h
        · split at h
          · exact absurd (Except.ok.inj h) nofun
          · exact Member.joinViaRelayFallback_relayed h
          · exact absurd h nofun

theorem Member.run_tagged {m : Member} {f : Framing} (h : m.run isGlobalUnicast = .ok (.relayed f)) :
    f = .tagged ↔ (m.directUpgrade && m.takesPart isGlobalUnicast) = true := by
  obtain ⟨leg, role, hleg, hf⟩ := Member.run_relayed h
  rw [← hf, runSession_tagged hleg]
  unfold Member.takesPart
  cases m.directUpgrade with
  | false => simp
  | true => simp [buildUpgradeCandidate_isSome]

/-- Two spliced members of one switch run the same framing exactly where it is off, or where both of
them, or neither, have what the upgrade takes. -/
theorem spliced_framing_iff {a b : Member} {f g : Framing} (hflag : a.directUpgrade = b.directUpgrade)
    (ha : a.run isGlobalUnicast = .ok (.relayed f)) (hb : b.run isGlobalUnicast = .ok (.relayed g)) :
    f = g ↔ a.directUpgrade = false ∨ a.takesPart isGlobalUnicast = b.takesPart isGlobalUnicast := by
  have hf := Member.run_tagged ha
  have hg := Member.run_tagged hb
  rw [← hflag] at hg
  cases hswitch : a.directUpgrade with
  | false =>
    rw [hswitch, Bool.false_and] at hf hg
    cases f with
    | tagged => exact absurd (hf.mp rfl) (by decide)
    | plain =>
      cases g with
      | tagged => exact absurd (hg.mp rfl) (by decide)
      | plain => simp
  | true =>
    rw [hswitch, Bool.true_and] at hf hg
    have hsame : f = g ↔ (f = .tagged ↔ g = .tagged) := by cases f <;> cases g <;> simp
    rw [hsame, hf, hg, ← Bool.eq_iff_iff]
    simp

/-- A member that parks at once on a relay dialled on demand, seen on `addr`. -/
def seenMember (role : ChannelRole) (flag : Bool) (addr : Ipv4Addr) : Member :=
  { role := role, directUpgrade := flag, acceptRace := false, observedReflexive := some ⟨.v4 addr, 4433, 0⟩,
    reflexiveEdge := none, binds := true, peerRelayOnly := true, dial := .timedOut, listener := false,
    ownReachable := false, accept := .ok false, relayFirst := false,
    relay := .quicLazy (.ok ()) (.ok (.admitted "" none none none)) }

/-- Stands for the check of ct-common on the addresses of the samples. -/
def sampleGlobalUnicast (a : SocketAddr) : Bool :=
  match a.ip with
  | .v4 ip => ip.a != 10 && ip.a != 127 && !(ip.a == 192 && ip.b == 168)
  | .v6 _ => true

theorem spliced_framing_iff_sample :
    (Framing.tagged = Framing.tagged ↔ (seenMember .initiate true ⟨93, 184, 216, 34⟩).directUpgrade = false ∨
      (seenMember .initiate true ⟨93, 184, 216, 34⟩).takesPart sampleGlobalUnicast
        = (seenMember .accept true ⟨151, 101, 1, 69⟩).takesPart sampleGlobalUnicast) :=
  spliced_framing_iff (a := seenMember .initiate true ⟨93, 184, 216, 34⟩)
    (b := seenMember .accept true ⟨151, 101, 1, 69⟩) rfl rfl rfl

/-- One member seen on a global address, the other on a private one. -/
theorem spliced_framing_differs :
    ¬ ∀ (isGlobalUnicast : SocketAddr → Bool) (a b : Member) (f g : Framing),
      a.directUpgrade = b.directUpgrade →
      a.run isGlobalUnicast = .ok (.relayed f) → b.run isGlobalUnicast = .ok (.relayed g) → f = g := by
  intro h
  have hsame := h sampleGlobalUnicast (seenMember .initiate true ⟨93, 184, 216, 34⟩)
    (seenMember .accept true ⟨192, 168, 1, 20⟩) .tagged .plain rfl rfl rfl
  exact absurd hsame nofun

end CtAgent.Channel
