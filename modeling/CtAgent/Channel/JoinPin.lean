import CtAgent.Channel.Join

/-! Where the peer pin holds: on every join path but the relay-only one with the upgrade fenced
off, which never looks at it. -/
namespace CtAgent.Channel

section
variable {common : ChannelCommon} {cfg : ChannelJoinCliConfig} {pin : PeerPin} {P : SessionStart → Prop}

/-- The sessions of one admission are all with its attested peer. -/
def With (holder noise : Key) (sessions : List SessionStart) : Prop :=
  ∀ st ∈ sessions, st.holder = holder ∧ st.noise = noise

theorem with_nil (holder noise : Key) : With holder noise [] := by
  intro st hst
  cases hst

theorem with_single (leg : Leg) (holder noise : Key) : With holder noise [⟨leg, holder, noise⟩] := by
  intro st hst
  rw [List.mem_singleton] at hst
  rw [hst]
  exact ⟨rfl, rfl⟩

theorem with_relay (holder noise : Key) (upgraded : Bool) :
    With holder noise (⟨.relay, holder, noise⟩ ::
      (if upgraded then [⟨.upgraded, holder, noise⟩] else [])) := by
  intro st hst
  rcases List.mem_cons.mp hst with rfl | hst
  · exact ⟨rfl, rfl⟩
  · split at hst
    · exact with_single .upgraded holder noise st hst
    · cases hst

theorem joinViaRelayFallback_with (holder noise : Key) (upgrade : Bool) (env : SessionEnv) :
    With holder noise (joinViaRelayFallback holder noise upgrade env).1 := by
  unfold joinViaRelayFallback
  split
  · exact with_nil holder noise
  · exact with_relay holder noise _

theorem raceAcceptAgainstRelay_with (holder noise : Key) (upgrade : Bool) (env : SessionEnv) :
    With holder noise (raceAcceptAgainstRelay holder noise upgrade env).1 := by
  unfold raceAcceptAgainstRelay
  split
  · exact with_relay holder noise _
  · exact with_single .accepted holder noise
  · exact with_nil holder noise
  · exact with_single .accepted holder noise
  · exact with_relay holder noise _
  · exact with_nil holder noise

theorem relaySession_with (holder noise : Key) (gate : Except JoinError Unit) (upgraded : Bool)
    (a : RelayAttempt) : With holder noise (relaySession cfg holder noise gate upgraded a).1 := by
  unfold relaySession
  split
  · exact with_nil holder noise
  · exact with_nil holder noise
  · exact with_nil holder noise
  · exact with_relay holder noise upgraded

/-- The pin lets the peer of a session through. -/
def Pinned (common : ChannelCommon) (cfg : ChannelJoinCliConfig) (pin : PeerPin)
    (st : SessionStart) : Prop :=
  pin.check common cfg.request.channel cfg.request.holder st.holder st.noise = .ok ()

theorem pinned_of_with {holder noise : Key} {sessions : List SessionStart}
    (hp : cfg.peerPin = some pin)
    (hc : checkPeerPin common cfg.request cfg.peerPin holder noise = .ok ())
    (h : With holder noise sessions) : ∀ st ∈ sessions, Pinned common cfg pin st := by
  intro st hst
  obtain ⟨h1, h2⟩ := h st hst
  rw [Pinned, h1, h2]
  rw [hp] at hc
  exact checkPeerPin_ok hc

theorem runChannelJoinWithAdmission_pinned (hp : cfg.peerPin = some pin) (listener : Bool)
    (admission : ChannelJoinOutcome) (env : SessionEnv) :
    ∀ st ∈ (runChannelJoinWithAdmission common cfg listener admission env).1,
      Pinned common cfg pin st := by
  unfold runChannelJoinWithAdmission
  split
  · simp
  · rename_i endpoint noise holder _
    split
    · simp
    · rename_i hc
      refine pinned_of_with hp hc ?_
      split
      · exact with_nil holder noise
      · dsimp only
        split
        · split
          · exact joinViaRelayFallback_with holder noise _ env
          · split
            · split
              · exact with_single .direct holder noise
              · exact joinViaRelayFallback_with holder noise _ env
              · exact with_nil holder noise
            · exact with_nil holder noise
        · split
          · split
            · exact joinViaRelayFallback_with holder noise _ env
            · split
              · exact raceAcceptAgainstRelay_with holder noise _ env
              · split
                · exact with_single .accepted holder noise
                · exact with_nil holder noise
                · exact with_nil holder noise
                · exact joinViaRelayFallback_with holder noise _ env
          · exact joinViaRelayFallback_with holder noise _ env

theorem joinViaRelayDcutr_pinned (hp : cfg.peerPin = some pin) (a : RelayAttempt) :
    ∀ st ∈ (joinViaRelayDcutr common cfg a).1, Pinned common cfg pin st := by
  unfold joinViaRelayDcutr
  split
  · simp
  · split
    · simp
    · rename_i hc
      exact pinned_of_with hp hc (relaySession_with _ _ _ _ a)

theorem joinViaRelayGateDcutr_pinned (hp : cfg.peerPin = some pin) (a : RelayAttempt) :
    ∀ st ∈ (joinViaRelayGateDcutr common cfg a).1, Pinned common cfg pin st := by
  unfold joinViaRelayGateDcutr
  split
  · simp
  · split
    · simp
    · rename_i hc
      exact pinned_of_with hp hc (relaySession_with _ _ _ _ a)

theorem after_all {sessions : List SessionStart} {rest : LoopRun} (h : ∀ st ∈ sessions, P st)
    (hr : ∀ st ∈ rest.1, P st) : ∀ st ∈ (LoopRun.after sessions rest).1, P st := by
  intro st hst
  rcases List.mem_append.mp hst with hst | hst
  · exact h st hst
  · exact hr st hst

/-- What holds of the sessions of every attempt holds of the sessions of the loop. -/
theorem runDcutrJoinLoop_all {label : String} {serveLoop : Bool} {ownExpiresAt : Option ℕ}
    {join : RelayAttempt → JoinRun} (hjoin : ∀ a, ∀ st ∈ (join a).1, P st)
    (script : List RelayAttempt) (attempt refusals dialFailures : ℕ) :
    ∀ st ∈ (runDcutrJoinLoop label serveLoop ownExpiresAt join attempt refusals dialFailures
      script).1, P st := by
  induction script generalizing attempt refusals dialFailures with
  | nil => simp [runDcutrJoinLoop]
  | cons a script ih =>
    have ha := hjoin a
    have hnext : ∀ n r d, ∀ st ∈ (LoopRun.after (join a).1
        (runDcutrJoinLoop label serveLoop ownExpiresAt join n r d script)).1, P st :=
      fun n r d => after_all ha (ih n r d)
    unfold runDcutrJoinLoop
    dsimp only
    split
    · simp
    · split
      · -- the dial failed: the turn itself starts no session
        split
        · simp
        · split
          · split
            · simp
            · split
              · simp
              · exact ih _ _ _
          · simp
      · -- one session, and behind it the loop stops or goes on to the next turn
        split
        · exact ha
        · split
          · split
            · exact ha
            · split
              · split
                · exact ha
                · exact hnext _ _ _
              · exact hnext _ _ _
              · exact ha
          · split
            · split
              · exact ha
              · exact hnext _ _ _
            · exact hnext _ _ _
            · exact ha

theorem runOneAdmissionSession_pinned (hp : cfg.peerPin = some pin) (c : CycleScript) :
    ∀ st ∈ (runOneAdmissionSession common cfg c).1, Pinned common cfg pin st := by
  unfold runOneAdmissionSession
  dsimp only
  split
  · simp
  · simp
  · split
    · simp
    · exact runChannelJoinWithAdmission_pinned hp true _ c.env
    · exact runChannelJoinWithAdmission_pinned hp false _ c.env

theorem runReconnectLoop_pinned (hp : cfg.peerPin = some pin) (script : List CycleScript) :
    ∀ st ∈ (runReconnectLoop common cfg script).1, Pinned common cfg pin st := by
  induction script with
  | nil => simp [runReconnectLoop]
  | cons c script ih =>
    have hc : ∀ st ∈ (runOneAdmissionSession common cfg c).1, Pinned common cfg pin st :=
      runOneAdmissionSession_pinned hp c
    unfold runReconnectLoop
    dsimp only
    split
    · exact after_all hc ih
    · exact hc

theorem serveLoopConcurrent_pinned (hp : cfg.peerPin = some pin) (script : List ServeScript) :
    ∀ st ∈ (serveLoopConcurrent common cfg script).1, Pinned common cfg pin st := by
  induction script with
  | nil => simp [serveLoopConcurrent]
  | cons a script ih =>
    unfold serveLoopConcurrent
    split
    · simp
    · split
      · exact after_all (runChannelJoinWithAdmission_pinned hp _ _ a.env) ih
      · split
        · simp
        · exact ih

theorem oneShotSession_sessions (cut : Option String) (r : LoopRun) :
    (oneShotSession cut r).1 = r.1 := by
  unfold oneShotSession
  split <;> rfl

theorem joined_sessions (serveLoop : Bool) (cut : Option String) (r : LoopRun) :
    (if serveLoop then r else oneShotSession cut r).1 = r.1 := by
  split
  · rfl
  · exact oneShotSession_sessions cut r

end

/-- The configuration runs the join that takes no pin, and that join can get to a session: the relay
gate has its certificate, the local side can be gated, and the own grant of a serving member is not
over at time 0. -/
def ChannelJoinCliConfig.runsFencedJoin (cfg : ChannelJoinCliConfig) : Bool :=
  cfg.relayOnly && (if cfg.relayGate then cfg.relayGateCert else cfg.circuitRelay) &&
    !cfg.experimentalDcutr && (match cfg.gateLocal with
      | .ok () => true
      | .error _ => false) &&
    (!shouldServeLoop cfg || decide (0 < cfg.request.expiresAt))

/-- Some peer that passes the attestation is one the pin refuses. -/
def PeerPin.RefusesAttested (common : ChannelCommon) (request : JoinRequest) (pin : PeerPin) : Prop :=
  ∃ holder noise attestation,
    common.verifyMemberNoiseAttestation request.channel holder noise attestation = true ∧
    pin.check common request.channel request.holder holder noise ≠ .ok ()

section
variable {common : ChannelCommon} {cfg : ChannelJoinCliConfig} {pin : PeerPin}

theorem relayAdmittedPeer_attested {kind : String} {request : JoinRequest} {a : RelayAttempt}
    {noise holder : Key} (h : relayAdmittedPeer common kind request a = .ok (noise, holder)) :
    ∃ attestation,
      common.verifyMemberNoiseAttestation request.channel holder noise attestation = true := by
  unfold relayAdmittedPeer at h
  split at h
  · cases h
  · unfold verifyRelayedDcutrPeer at h
    split at h
    · cases h
    · cases h
    · split at h
      · rename_i hv
        cases h
        exact ⟨_, hv⟩
      · cases h
  · cases h
  · cases h
  · cases h

theorem joinViaRelayWithoutDcutr_attested (a : RelayAttempt) :
    ∀ st ∈ (joinViaRelayWithoutDcutr common cfg a).1, ∃ attestation,
      common.verifyMemberNoiseAttestation cfg.request.channel st.holder st.noise attestation = true := by
  unfold joinViaRelayWithoutDcutr
  split
  · simp
  · rename_i noise holder hp
    intro st hst
    obtain ⟨h1, h2⟩ := relaySession_with holder noise (.ok ()) false a st hst
    rw [h1, h2]
    exact relayAdmittedPeer_attested hp

theorem joinViaRelayWithoutDcutr_ungated {e : JoinError} (hg : cfg.gateLocal = .error e)
    (a : RelayAttempt) : (joinViaRelayWithoutDcutr common cfg a).1 = [] := by
  unfold joinViaRelayWithoutDcutr
  split
  · rfl
  · simp [relaySession, hg]

theorem runDcutrJoinLoop_expired (label : String) (serveLoop : Bool) (join : RelayAttempt → JoinRun)
    (attempt refusals dialFailures : ℕ) (script : List RelayAttempt) :
    (runDcutrJoinLoop label serveLoop (some 0) join attempt refusals dialFailures script).1 = [] := by
  cases script with
  | nil => rfl
  | cons a script => simp [runDcutrJoinLoop]

/-- The loop around the fenced join, when the configuration cannot get it to a session or the pin
refuses nobody it could meet. -/
theorem fencedLoop_pinned (h : ¬ (cfg.runsFencedJoin = true ∧ pin.RefusesAttested common cfg.request))
    (hr : cfg.relayOnly = true)
    (hk : (if cfg.relayGate then cfg.relayGateCert else cfg.circuitRelay) = true)
    (hd : cfg.experimentalDcutr = false) (label : String) (script : List RelayAttempt) :
    ∀ st ∈ (runDcutrJoinLoop label (shouldServeLoop cfg)
      (if shouldServeLoop cfg then some cfg.request.expiresAt else none)
      (joinViaRelayWithoutDcutr common cfg) 0 0 0 script).1, Pinned common cfg pin st := by
  cases hg : cfg.gateLocal with
  | error e =>
    apply runDcutrJoinLoop_all
    intro a st hst
    rw [joinViaRelayWithoutDcutr_ungated hg] at hst
    cases hst
  | ok u =>
    by_cases hs : shouldServeLoop cfg = true ∧ cfg.request.expiresAt = 0
    · rw [if_pos hs.1, hs.2, runDcutrJoinLoop_expired]
      simp
    · have hf : cfg.runsFencedJoin = true := by
        simp only [ChannelJoinCliConfig.runsFencedJoin, hr, hk, hd, hg, Bool.not_false, Bool.and_self,
          Bool.true_and, Bool.or_eq_true, Bool.not_eq_true', decide_eq_true_eq]
        by_cases hsl : shouldServeLoop cfg = true
        · right
          exact Nat.pos_of_ne_zero fun h0 => hs ⟨hsl, h0⟩
        · left
          exact Bool.eq_false_iff.mpr hsl
      apply runDcutrJoinLoop_all
      intro a st hst
      obtain ⟨attestation, hv⟩ := joinViaRelayWithoutDcutr_attested a st hst
      by_contra hn
      exact h ⟨hf, st.holder, st.noise, attestation, hv, hn⟩

/-- The one relay attempt that admits a given attested peer, with nothing in its way. -/
def admitting (holder noise : Key) (attestation : Attestation) : JoinScript :=
  { relay := [{ dial := .ok ()
                admission := .ok (.admitted "" (some noise) (some holder) (some attestation))
                streams := .ok ()
                gate := .ok ()
                upgraded := false
                session := .ok ()
                now := 0
                expiredDuring := false
                expiredBackoff := false }]
    cycles := []
    serve := []
    bound := .ok ()
    cut := none }

theorem joinViaRelayWithoutDcutr_admitting {holder noise : Key} {attestation : Attestation}
    (hv : common.verifyMemberNoiseAttestation cfg.request.channel holder noise attestation = true)
    (hg : cfg.gateLocal = .ok ()) :
    ∀ a ∈ (admitting holder noise attestation).relay,
      joinViaRelayWithoutDcutr common cfg a = ([⟨.relay, holder, noise⟩], .ok ()) := by
  intro a ha
  simp only [admitting, List.mem_singleton] at ha
  subst ha
  simp [joinViaRelayWithoutDcutr, relayAdmittedPeer, verifyRelayedDcutrPeer, hv, relaySession, hg]

theorem dcutrKnob_relayGate {relayOnly relayGate circuitRelay experimentalDcutr dcutr : Bool}
    (h : dcutrKnob relayOnly relayGate circuitRelay experimentalDcutr = some (.relayGate dcutr)) :
    relayOnly = true ∧ relayGate = true ∧ experimentalDcutr = dcutr := by
  unfold dcutrKnob at h
  cases relayOnly <;> cases relayGate <;> cases circuitRelay <;> simp_all

theorem dcutrKnob_circuitRelay {relayOnly relayGate circuitRelay experimentalDcutr dcutr : Bool}
    (h : dcutrKnob relayOnly relayGate circuitRelay experimentalDcutr = some (.circuitRelay dcutr)) :
    relayOnly = true ∧ relayGate = false ∧ circuitRelay = true ∧ experimentalDcutr = dcutr := by
  unfold dcutrKnob at h
  cases relayOnly <;> cases relayGate <;> cases circuitRelay <;> simp_all

/-- One admission is enough for the fenced join to start a session, with whoever was admitted. -/
theorem runChannelJoinCommand_admitting {holder noise : Key} {attestation : Attestation}
    (hf : cfg.runsFencedJoin = true)
    (hv : common.verifyMemberNoiseAttestation cfg.request.channel holder noise attestation = true) :
    ⟨.relay, holder, noise⟩ ∈
      (runChannelJoinCommand common cfg (admitting holder noise attestation)).1 := by
  simp only [ChannelJoinCliConfig.runsFencedJoin, Bool.and_eq_true, Bool.not_eq_true'] at hf
  obtain ⟨⟨⟨⟨hr, hk⟩, hd⟩, hg⟩, hs⟩ := hf
  have hg' : cfg.gateLocal = .ok () := by
    split at hg
    · assumption
    · cases hg
  have hjoin := joinViaRelayWithoutDcutr_admitting hv hg'
  simp only [admitting, List.mem_singleton, forall_eq] at hjoin
  -- the loop gets to its first join and starts the session there, whatever it does behind it
  have hloop : ∀ label, ⟨.relay, holder, noise⟩ ∈ (runDcutrJoinLoop label (shouldServeLoop cfg)
      (if shouldServeLoop cfg then some cfg.request.expiresAt else none)
      (joinViaRelayWithoutDcutr common cfg) 0 0 0 (admitting holder noise attestation).relay).1 := by
    intro label
    cases hsl : shouldServeLoop cfg with
    | true =>
      have he : cfg.request.expiresAt ≠ 0 := by
        rw [hsl] at hs
        simp only [Bool.not_true, Bool.false_or, decide_eq_true_eq] at hs
        omega
      simp [admitting, runDcutrJoinLoop, hjoin, he, dcutrLoopAction, LoopRun.after]
    | false => simp [admitting, runDcutrJoinLoop, hjoin, dcutrLoopAction]
  unfold runChannelJoinCommand dcutrKnob
  cases hgate : cfg.relayGate with
  | true =>
    rw [hgate] at hk
    simp only [hr, hd, Bool.not_true, Bool.false_eq_true, if_false, if_true] at hk ⊢
    rw [if_pos hk, joined_sessions]
    exact hloop "relay-gate"
  | false =>
    rw [hgate] at hk
    simp only [Bool.false_eq_true, if_false] at hk
    simp only [hr, hd, hk, Bool.not_true, Bool.false_eq_true, if_false, if_true]
    rw [joined_sessions]
    exact hloop "circuit-relay"

/-- On a configuration that pins its peer, no session starts with a peer the pin refuses, unless the
configuration runs the fenced relay-only join and there is an attested peer to be refused. -/
theorem peer_pin_holds (hp : cfg.peerPin = some pin) :
    (∀ script, ∀ st ∈ (runChannelJoinCommand common cfg script).1,
      pin.check common cfg.request.channel cfg.request.holder st.holder st.noise = .ok ()) ↔
    ¬ (cfg.runsFencedJoin = true ∧ pin.RefusesAttested common cfg.request) := by
  refine ⟨?_, fun h script => ?_⟩
  · rintro h ⟨hf, holder, noise, attestation, hv, hn⟩
    exact hn (h _ _ (runChannelJoinCommand_admitting hf hv))
  · change ∀ st ∈ (runChannelJoinCommand common cfg script).1, Pinned common cfg pin st
    unfold runChannelJoinCommand
    dsimp only
    split
    · rename_i dcutr hk
      obtain ⟨hr, hgate, hd⟩ := dcutrKnob_relayGate hk
      split
      · rename_i hcert
        rw [joined_sessions]
        cases dcutr with
        | true => exact runDcutrJoinLoop_all (joinViaRelayGateDcutr_pinned hp) _ 0 0 0
        | false => exact fencedLoop_pinned h hr (by rw [hgate, if_pos rfl, hcert]) hd _ _
      · simp
    · rename_i dcutr hk
      obtain ⟨hr, hgate, hcircuit, hd⟩ := dcutrKnob_circuitRelay hk
      rw [joined_sessions]
      cases dcutr with
      | true => exact runDcutrJoinLoop_all (joinViaRelayDcutr_pinned hp) _ 0 0 0
      | false => exact fencedLoop_pinned h hr (by rw [hgate, if_neg (by simp), hcircuit]) hd _ _
    · split
      · split
        · exact runReconnectLoop_pinned hp _
        · split
          · split
            · simp
            · exact runReconnectLoop_pinned hp _
          · split
            · simp
            · rw [oneShotSession_sessions]
              exact runOneAdmissionSession_pinned hp _
      · split
        · simp
        · exact serveLoopConcurrent_pinned hp _

end

def key (n : UInt8) : Key := Vector.replicate 32 n

/-- An attestation here is the holder followed by the Noise key. -/
def sampleCommon : ChannelCommon where
  channelIdForLink operator a b := Vector.zipWith (· ^^^ ·) operator (Vector.zipWith (· ^^^ ·) a b)
  verifyMemberNoiseAttestation _ holder noise attestation :=
    decide (attestation.toList = holder.toList ++ noise.toList)
  relayOnlyEndpoint := "relay-only"

def sampleAttestation (holder noise : UInt8) : Attestation :=
  Vector.replicate 32 holder ++ Vector.replicate 32 noise

/-- An initiator that pins holder 2, on the direct path. -/
def samplePinned : ChannelJoinCliConfig where
  role := .initiate
  request := ⟨key 9, key 1, 4000000000⟩
  relayOnly := false
  circuitRelay := false
  relayGate := false
  relayGateCert := false
  experimentalDcutr := false
  directUpgrade := false
  acceptRace := false
  callReconnect := false
  peerPin := some (.peers [⟨key 2, none⟩])
  gateLocal := .ok ()
  serve := false
  callService := false
  callPersistent := false
  forward := false

def sampleSession (holder : UInt8) : JoinScript where
  relay := []
  cycles := [{ admits := [⟨.ok (.admitted "203.0.113.5:7000" (some (key 4)) (some (key holder))
                            (some (sampleAttestation holder 4))), false⟩]
               listener := .ok ()
               env := ⟨true, .connected, true, .timedOut, .ok (), false, false, false, .ok ()⟩
               again := false }]
  serve := []
  bound := .ok ()
  cut := none

theorem peer_pin_holds_sample :
    samplePinned.peerPin = some (.peers [⟨key 2, none⟩]) ∧
    (runChannelJoinCommand sampleCommon samplePinned (sampleSession 2)).1 =
      [⟨.direct, key 2, key 4⟩] ∧
    (runChannelJoinCommand sampleCommon samplePinned (sampleSession 3)).1 = [] ∧
    (∀ script, ∀ st ∈ (runChannelJoinCommand sampleCommon samplePinned script).1,
      (PeerPin.peers [⟨key 2, none⟩]).check sampleCommon (key 9) (key 1) st.holder st.noise = .ok ()) := by
  refine ⟨rfl, by decide +kernel, by decide +kernel, ?_⟩
  refine (peer_pin_holds rfl).mpr ?_
  rintro ⟨hf, -⟩
  revert hf
  decide

/-- The same pin, relay-only over the circuit relay with the upgrade fenced off: a session starts
with holder 3. -/
theorem fenced_join_started_unpinned :
    ¬ (∀ cfg : ChannelJoinCliConfig, ∀ pin, cfg.peerPin = some pin → ∀ script,
      ∀ st ∈ (runChannelJoinCommand sampleCommon cfg script).1,
        pin.check sampleCommon cfg.request.channel cfg.request.holder st.holder st.noise = .ok ()) := by
  intro h
  have hst : (⟨.relay, key 3, key 4⟩ : SessionStart) ∈ (runChannelJoinCommand sampleCommon
      { samplePinned with relayOnly := true, circuitRelay := true }
      (admitting (key 3) (key 4) (sampleAttestation 3 4))).1 := by
    decide +kernel
  have hc := h { samplePinned with relayOnly := true, circuitRelay := true } _ rfl _ _ hst
  revert hc
  change (PeerPin.peers [⟨key 2, none⟩]).check sampleCommon (key 9) (key 1) (key 3) (key 4) ≠ .ok ()
  simp only [PeerPin.check, ne_eq, checkPeers_ok_iff]
  decide +kernel

end CtAgent.Channel
