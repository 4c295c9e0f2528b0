import CtAgent.Channel.PeerPin

/-! The join paths of one `ct-agent channel` process. What dials, parks, timers and the edge answer
comes in as a script; a path returns the sessions it started, each with the attested peer it was
started with, and its result. Delays are left out, since nothing is decided by their length. -/
namespace CtAgent.Channel

/-- `upgraded` is the direct link a relay session moved to. -/
inductive Leg where
  | direct | accepted | relay | upgraded
  deriving DecidableEq, Repr

structure SessionStart where
  leg : Leg
  holder : Key
  noise : Key
  deriving DecidableEq, Repr

abbrev JoinRun := List SessionStart × Except JoinError Unit

inductive DialAnswer where
  | connected | unreachable
  | failed (e : JoinError)
  deriving DecidableEq, Repr

inductive AcceptAnswer where
  | connected | closed | timedOut
  | handshakeFailed (e : JoinError)
  deriving DecidableEq, Repr

/-- The transport answers of one session: the direct dial, whether the advertised address looks
reachable, the accept window, the relay leg's park, which of the two ends first when they race, and
how a session that started ends. -/
structure SessionEnv where
  parses : Bool
  dial : DialAnswer
  ownReachable : Bool
  accept : AcceptAnswer
  park : Except JoinError Unit
  relayFirst : Bool
  candidate : Bool
  upgraded : Bool
  session : Except JoinError Unit

/-- What a configuration decides of the path: the role, the own grant and the switches. Whether the
broker and relay legs walk a front-door ladder only changes the transport's answers. `gateLocal` is
the answer of `gate_local`, which depends on the environment only; `serve`, `callService`,
`callPersistent` and `forward` are environment switches. -/
structure ChannelJoinCliConfig where
  role : ChannelRole
  request : JoinRequest
  relayOnly : Bool
  circuitRelay : Bool
  relayGate : Bool
  relayGateCert : Bool
  experimentalDcutr : Bool
  directUpgrade : Bool
  acceptRace : Bool
  callReconnect : Bool
  peerPin : Option PeerPin
  gateLocal : Except JoinError Unit
  serve : Bool
  callService : Bool
  callPersistent : Bool
  forward : Bool

section
variable (common : ChannelCommon)

/-- A relay session, and the direct link it may move to. The upgrade runs with the same peer key. -/
def runRelaySession (holder noise : Key) (upgrade : Bool) (env : SessionEnv) : JoinRun :=
  (⟨.relay, holder, noise⟩ ::
    (if upgrade && env.upgraded then [⟨.upgraded, holder, noise⟩] else []), env.session)

def joinViaRelayFallback (holder noise : Key) (upgrade : Bool) (env : SessionEnv) : JoinRun :=
  match env.park with
  | .error e => ([], .error e)
  | .ok () => runRelaySession holder noise upgrade env

/-- Accept window and relay leg side by side; a side that fails leaves the other one. -/
def raceAcceptAgainstRelay (holder noise : Key) (upgrade : Bool) (env : SessionEnv) : JoinRun :=
  let direct : JoinRun := ([⟨.accepted, holder, noise⟩], env.session)
  match env.relayFirst, env.park, env.accept with
  | true, .ok (), _ => runRelaySession holder noise upgrade env
  | true, .error _, .connected => direct
  | true, .error e, _ => ([], .error e)
  | false, _, .connected => direct
  | false, .ok (), _ => runRelaySession holder noise upgrade env
  | false, .error e, _ => ([], .error e)

/-- The attested peer of an admission: endpoint, Noise key and holder. -/
def admittedPeer (request : JoinRequest) (admission : ChannelJoinOutcome) :
    Except JoinError (String × Key × Key) :=
  match admission with
  | .refused category => .error (.admissionRefused "edge broker refused the channel join" category)
  | .parkExpired =>
    .error (.parkExpired ("channel park expired with no partner within the edge park window (#21) -- " ++
      "re-parking"))
  | .admitted endpoint noise holder attestation =>
    match noise, holder, attestation with
    | none, _, _ =>
      .error (.other "broker admitted the join but relayed no peer Noise key (registry has none)")
    | some _, none, _ =>
      .error (.other "broker relayed a Noise key without the peer holder — cannot verify (#101)")
    | some _, some _, none =>
      .error (.other "broker relayed a Noise key without an attestation (#101)")
    | some noise, some holder, some attestation =>
      if common.verifyMemberNoiseAttestation request.channel holder noise attestation then
        .ok (endpoint, noise, holder)
      else
        .error (.other "peer Noise-key attestation failed — refusing to pin a possibly-substituted key (#101)")

/-- The data path of an admission. A refused pairing takes its leg and closes it before the Noise
handshake, so it starts nothing. -/
def runChannelJoinWithAdmission (cfg : ChannelJoinCliConfig) (listener : Bool)
    (admission : ChannelJoinOutcome) (env : SessionEnv) : JoinRun :=
  match admittedPeer common cfg.request admission with
  | .error e => ([], .error e)
  | .ok (endpoint, noise, holder) =>
    match checkPeerPin common cfg.request cfg.peerPin holder noise with
    | .error refused => ([], .error refused)
    | .ok () =>
      match cfg.gateLocal with
      -- the local side is checked in front of the first byte to the peer
      | .error e => ([], .error e)
      | .ok () =>
        let upgrade := cfg.directUpgrade && env.candidate
        match cfg.role with
        | .initiate =>
          if endpoint = common.relayOnlyEndpoint then joinViaRelayFallback holder noise upgrade env
          else if env.parses then
            match env.dial with
            | .connected => ([⟨.direct, holder, noise⟩], env.session)
            -- a dial that reached the peer and failed there does not fall back
            | .unreachable => joinViaRelayFallback holder noise upgrade env
            | .failed e => ([], .error e)
          else ([], .error (.other s!"broker returned an unparseable peer endpoint: {endpoint}"))
        | .accept =>
          if listener then
            if !env.ownReachable then joinViaRelayFallback holder noise upgrade env
            else if cfg.acceptRace then raceAcceptAgainstRelay holder noise upgrade env
            else
              match env.accept with
              | .connected => ([⟨.accepted, holder, noise⟩], env.session)
              | .handshakeFailed e => ([], .error e)
              | .closed => ([], .error (.other "channel listener closed with no incoming"))
              | .timedOut => joinViaRelayFallback holder noise upgrade env
          else joinViaRelayFallback holder noise upgrade env

/-- One attempt of a relay-only join: the relay dial, the admission on it, the relay streams, the
relay gate and its client, the session; then what the clock says around it. -/
structure RelayAttempt where
  dial : Except JoinError Unit
  admission : Except JoinError ChannelJoinOutcome
  streams : Except JoinError Unit
  gate : Except JoinError Unit
  upgraded : Bool
  session : Except JoinError Unit
  now : ℕ
  expiredDuring : Bool
  expiredBackoff : Bool

/-- The admission of the relay-only joins, whose answer is the relay leg itself. `kind` starts the
message of an admission without a Noise key. -/
def relayAdmittedPeer (kind : String) (request : JoinRequest) (a : RelayAttempt) :
    Except JoinError (Key × Key) :=
  match a.admission with
  | .error e => .error e
  | .ok (.admitted _ (some noise) holder attestation) =>
    verifyRelayedDcutrPeer common request noise holder attestation
  | .ok (.admitted _ none _ _) =>
    .error (.other s!"{kind} join needs the peer's relayed Noise key (register the member's key, #101)")
  | .ok (.refused category) =>
    .error (.admissionRefused "edge relay refused the channel join" category)
  | .ok .parkExpired =>
    .error (.parkExpired ("edge relay park expired with no partner within the park window (#21) -- " ++
      "re-park the relay leg"))

/-- Behind the admission: the local side, the relay streams, and the session. -/
def relaySession (cfg : ChannelJoinCliConfig) (holder noise : Key) (gate : Except JoinError Unit)
    (upgraded : Bool) (a : RelayAttempt) : JoinRun :=
  match cfg.gateLocal, a.streams, gate with
  | .error e, _, _ => ([], .error e)
  | .ok (), .error e, _ => ([], .error e)
  | .ok (), .ok (), .error e => ([], .error e)
  | .ok (), .ok (), .ok () =>
    (⟨.relay, holder, noise⟩ :: (if upgraded then [⟨.upgraded, holder, noise⟩] else []), a.session)

def joinViaRelayDcutr (cfg : ChannelJoinCliConfig) (a : RelayAttempt) : JoinRun :=
  match relayAdmittedPeer common "DCUtR relay" cfg.request a with
  | .error e => ([], .error e)
  | .ok (noise, holder) =>
    match checkPeerPin common cfg.request cfg.peerPin holder noise with
    | .error refused => ([], .error refused)
    | .ok () => relaySession cfg holder noise (.ok ()) a.upgraded a

def joinViaRelayGateDcutr (cfg : ChannelJoinCliConfig) (a : RelayAttempt) : JoinRun :=
  match relayAdmittedPeer common "DCUtR relay-gate" cfg.request a with
  | .error e => ([], .error e)
  | .ok (noise, holder) =>
    match checkPeerPin common cfg.request cfg.peerPin holder noise with
    | .error refused => ([], .error refused)
    | .ok () => relaySession cfg holder noise a.gate a.upgraded a

/-- The same join with the upgrade fenced off. It takes no pin. -/
def joinViaRelayWithoutDcutr (cfg : ChannelJoinCliConfig) (a : RelayAttempt) : JoinRun :=
  match relayAdmittedPeer common "relay-only" cfg.request a with
  | .error e => ([], .error e)
  | .ok (noise, holder) => relaySession cfg holder noise (.ok ()) false a

end

inductive DcutrKnob where
  | relayGate (upgrade : Bool)
  | circuitRelay (upgrade : Bool)
  deriving DecidableEq, Repr

def DcutrKnob.upgrade : DcutrKnob → Bool
  | .relayGate u => u
  | .circuitRelay u => u

def dcutrKnob (relayOnly relayGate circuitRelay experimentalDcutr : Bool) : Option DcutrKnob :=
  if !relayOnly then none
  else if relayGate then some (.relayGate experimentalDcutr)
  else if circuitRelay then some (.circuitRelay experimentalDcutr)
  else none

inductive DcutrLoopAction where
  | retryReset (consecutiveRefusals : ℕ)
  | retryBounded (nextAttempt : ℕ)
  | stop
  deriving DecidableEq, Repr

def oneShotDcutrAdmissionRetries : ℕ := 2
def maxConsecutiveDcutrDialFailures : ℕ := 20

def dcutrLoopAction (result : Except JoinError Unit) (serveLoop : Bool)
    (attempt consecutiveRefusals : ℕ) : DcutrLoopAction :=
  let refused := match result with
    | .ok () => false
    | .error e => e.isDefinitiveAdmissionRefusal
  let expired := match result with
    | .ok () => false
    | .error e => e.isParkExpired
  if serveLoop then
    if expired then .retryReset 0
    else if refused then .retryReset (consecutiveRefusals + 1)
    else .retryReset 0
  else if refused then .stop
  else
    match result with
    | .error _ => if attempt < oneShotDcutrAdmissionRetries then .retryBounded (attempt + 1) else .stop
    | .ok () => .stop

/-- A loop's sessions and its result; `none` while it still runs when the script ends. -/
abbrev LoopRun := List SessionStart × Option (Except JoinError Unit)

def ownExpiryEnds (at_ : ℕ) : Except JoinError Unit :=
  .error (.ownGrantEnded s!"this member's channel grant expired (expires_at {at_})")

def LoopRun.after (sessions : List SessionStart) (rest : LoopRun) : LoopRun :=
  (sessions ++ rest.1, rest.2)

/-- One round of the loop per attempt of the script. -/
def runDcutrJoinLoop (label : String) (serveLoop : Bool) (ownExpiresAt : Option ℕ)
    (join : RelayAttempt → JoinRun) :
    (attempt consecutiveRefusals dialFailures : ℕ) → List RelayAttempt → LoopRun
  | _, _, _, [] => ([], none)
  | attempt, refusals, dialFailures, a :: script =>
    let expiry := ownExpiresAt.getD 0
    if ownExpiresAt.isSome && decide (expiry ≤ a.now) then ([], some (ownExpiryEnds expiry))
    else
      match a.dial with
      | .error e =>
        if ownExpiresAt.isSome && a.expiredDuring then ([], some (ownExpiryEnds expiry))
        else if serveLoop then
          if maxConsecutiveDcutrDialFailures ≤ dialFailures + 1 then
            ([], some (.error (.other
              s!"{label}: giving up after {dialFailures + 1} consecutive dial failures: {e.text}")))
          else if ownExpiresAt.isSome && a.expiredBackoff then ([], some (ownExpiryEnds expiry))
          else runDcutrJoinLoop label serveLoop ownExpiresAt join attempt refusals (dialFailures + 1) script
        else ([], some (.error e))
      | .ok () =>
        let (sessions, result) := join a
        if ownExpiresAt.isSome && a.expiredDuring then (sessions, some (ownExpiryEnds expiry))
        else
          match ownExpiresAt, result with
          | some at_, .error e =>
            if e.ownGrantRefusal (some at_) a.now then (sessions, some (.error (.ownGrantEnded e.text)))
            else
              match dcutrLoopAction result serveLoop attempt refusals with
              | .retryReset refusals' =>
                if a.expiredBackoff then (sessions, some (ownExpiryEnds expiry))
                else LoopRun.after sessions
                  (runDcutrJoinLoop label serveLoop ownExpiresAt join 0 refusals' 0 script)
              | .retryBounded next => LoopRun.after sessions
                  (runDcutrJoinLoop label serveLoop ownExpiresAt join next refusals 0 script)
              | .stop => (sessions, some result)
          | _, _ =>
            match dcutrLoopAction result serveLoop attempt refusals with
            | .retryReset refusals' =>
              if ownExpiresAt.isSome && a.expiredBackoff then (sessions, some (ownExpiryEnds expiry))
              else LoopRun.after sessions
                (runDcutrJoinLoop label serveLoop ownExpiresAt join 0 refusals' 0 script)
            | .retryBounded next => LoopRun.after sessions
                (runDcutrJoinLoop label serveLoop ownExpiresAt join next refusals 0 script)
            | .stop => (sessions, some result)

/-- One admission attempt of an initiator; `closed`: the retry window is over behind it. -/
structure AdmitAttempt where
  answer : Except JoinError ChannelJoinOutcome
  closed : Bool

/-- The admission of a one-shot initiator: retried until a peer is admitted, the grant is revoked or
the window closes. `none`: still at it when the script ends. -/
def admitOneShotWithRetry : List AdmitAttempt → Option (Except JoinError ChannelJoinOutcome)
  | [] => none
  | a :: script =>
    match a.answer with
    | .ok (.admitted endpoint noise holder attestation) =>
      some (.ok (.admitted endpoint noise holder attestation))
    | .error e =>
      if e.isRevokedGrantRefusal then some (.error e)
      else if a.closed then
        some (.error (.other ("no acceptor for the channel parked at this edge within the window " ++
          "(ct-agent#95)")))
      else admitOneShotWithRetry script
    | .ok _ =>
      if a.closed then
        some (.error (.other ("no acceptor for the channel parked at this edge within the window " ++
          "(ct-agent#95)")))
      else admitOneShotWithRetry script

/-- One admit-and-serve cycle. `listener`: the direct listener could be bound; `again`: the loop that
runs the cycle, if there is one, goes on behind it. -/
structure CycleScript where
  admits : List AdmitAttempt
  listener : Except JoinError Unit
  env : SessionEnv
  again : Bool

section
variable (common : ChannelCommon)

def runOneAdmissionSession (cfg : ChannelJoinCliConfig) (c : CycleScript) : LoopRun :=
  let admission := match cfg.role with
    | .initiate => admitOneShotWithRetry c.admits
    | .accept => c.admits.head?.map AdmitAttempt.answer
  match admission with
  | none => ([], none)
  | some (.error e) => ([], some (.error e))
  | some (.ok admission) =>
    match cfg.role, cfg.relayOnly, c.listener with
    | .accept, false, .error e => ([], some (.error e))
    | .accept, false, .ok () =>
      let (sessions, result) := runChannelJoinWithAdmission common cfg true admission c.env
      (sessions, some result)
    | _, _, _ =>
      let (sessions, result) := runChannelJoinWithAdmission common cfg false admission c.env
      (sessions, some result)

/-- The reconnecting loops (the forward initiator, the persistent call) around one cycle. -/
def runReconnectLoop (cfg : ChannelJoinCliConfig) : List CycleScript → LoopRun
  | [] => ([], none)
  | c :: script =>
    let (sessions, result) := runOneAdmissionSession common cfg c
    if c.again then LoopRun.after sessions (runReconnectLoop cfg script) else (sessions, result)

/-- One turn of the persistent serve loop: the next admission and the session spawned for it. -/
structure ServeScript where
  answer : Except JoinError ChannelJoinOutcome
  env : SessionEnv
  now : ℕ
  expired : Bool

def rejectRefusedOutcome : ChannelJoinOutcome → Except JoinError ChannelJoinOutcome
  | .refused category => .error (.admissionRefused "edge broker refused the channel join" category)
  | .parkExpired =>
    .error (.parkExpired ("channel park expired with no partner within the edge park window (#21) -- " ++
      "re-parking"))
  | admitted => .ok admitted

/-- The sessions run side by side; the list has them in the order they were admitted. -/
def serveLoopConcurrent (cfg : ChannelJoinCliConfig) : List ServeScript → LoopRun
  | [] => ([], none)
  | a :: script =>
    if a.expired then ([], some (ownExpiryEnds cfg.request.expiresAt))
    else
      match a.answer.bind rejectRefusedOutcome with
      | .ok admission =>
        let listener := cfg.role == .accept && !cfg.relayOnly
        LoopRun.after (runChannelJoinWithAdmission common cfg listener admission a.env).1
          (serveLoopConcurrent cfg script)
      | .error e =>
        if e.ownGrantRefusal (some cfg.request.expiresAt) a.now then
          ([], some (.error (.ownGrantEnded e.text)))
        else serveLoopConcurrent cfg script

/-- Everything the outside answers while the command runs. `bound`: the listener of a forward, or
the shared one of the serve loop, could be bound; `cut`: a grant end cut the one session short. -/
structure JoinScript where
  relay : List RelayAttempt
  cycles : List CycleScript
  serve : List ServeScript
  bound : Except JoinError Unit
  cut : Option String

def oneShotSession (cut : Option String) (r : LoopRun) : LoopRun :=
  match r.2, cut with
  | some (.ok ()), some reason =>
    (r.1, some (.error (.other s!"the session was cut short: {reason}")))
  | _, _ => r

def shouldServeLoop (cfg : ChannelJoinCliConfig) : Bool := cfg.role == .accept && cfg.serve

def runChannelJoinCommand (cfg : ChannelJoinCliConfig) (script : JoinScript) : LoopRun :=
  let serveLoop := shouldServeLoop cfg
  let ownExpiresAt := if serveLoop then some cfg.request.expiresAt else none
  match dcutrKnob cfg.relayOnly cfg.relayGate cfg.circuitRelay cfg.experimentalDcutr with
  | some (.relayGate dcutr) =>
    if cfg.relayGateCert then
      let join := if dcutr then joinViaRelayGateDcutr common cfg else joinViaRelayWithoutDcutr common cfg
      let joined := runDcutrJoinLoop "relay-gate" serveLoop ownExpiresAt join 0 0 0 script.relay
      if serveLoop then joined else oneShotSession script.cut joined
    else ([], some (.error (.other "CT_CHANNEL_RELAY_GATE set without CT_CHANNEL_RELAY_GATE_CERT")))
  | some (.circuitRelay dcutr) =>
    let join := if dcutr then joinViaRelayDcutr common cfg else joinViaRelayWithoutDcutr common cfg
    let joined := runDcutrJoinLoop "circuit-relay" serveLoop ownExpiresAt join 0 0 0 script.relay
    if serveLoop then joined else oneShotSession script.cut joined
  | none =>
    if !serveLoop then
      if cfg.callService && cfg.callReconnect && cfg.callPersistent then
        runReconnectLoop common cfg script.cycles
      else if cfg.forward then
        match script.bound with
        | .error e => ([], some (.error e))
        | .ok () => runReconnectLoop common cfg script.cycles
      else
        match script.cycles with
        | [] => ([], none)
        | c :: _ => oneShotSession script.cut (runOneAdmissionSession common cfg c)
    else
      match (if cfg.relayOnly then .ok () else script.bound) with
      | .error e => ([], some (.error e))
      | .ok () => serveLoopConcurrent common cfg script.serve

end

end CtAgent.Channel
