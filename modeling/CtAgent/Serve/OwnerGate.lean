import CtAgent.Serve.NoiseRelay

/-! Which relay a Client's stream gets in browser mode, over QUIC (`serve_quic_connection`), over the
TLS-TCP fallback and at the direct listener, and where the owner's preamble stands in front of the
Origin. -/
namespace CtAgent.Serve

open CtAgent.Lib CtAgent.Lib.ByteSource CtAgent.Codec CtAgent.LocalAuth

/-- What a serving agent is started with. -/
structure ServingAgent where
  config : AgentConfig
  token : Vector UInt8 32
  terminator : Option OriginTerminator
  gate : GateMode
  deriving DecidableEq, Repr

def ServingAgent.fallbackCtx (a : ServingAgent) : FallbackCtx :=
  ⟨a.config, a.token.toList, a.terminator.isSome⟩

inductive Transport
  | quic
  | tcpFallback
  | direct
  deriving DecidableEq, Repr

/-- What a direct connection meets: its first bi-stream, where one comes within the deadline, the flag of
the revocation view, and where the deadline passes later. -/
structure DirectEnv (σ : Type) where
  stream : Option σ
  revoked : Bool
  lateMessage1 : Bool
  lateMessage2 : Bool
  lateGate : Bool

/-- What one stream meets: its bytes, over QUIC from the first relayed one on and over the fallback from
the ack of each role's registration on, and the code behind each relay. -/
structure StreamEnv (σ τ ν : Type) where
  hmac : Hmac
  quicStream : σ
  dial : Role → Option String
  conn : Role → σ
  pongWrite : ℕ → Option String
  direct : DirectEnv σ
  duplex : DuplexEnv (Handed σ) τ
  noise : NoiseEnv (Handed σ) ν
  /-- the framed relay, whatever it does -/
  framed : Handed σ → Served

section
variable {σ τ ν : Type} [ByteSource σ] [ByteSource τ]

/-- The role a registration frame is for. -/
def roleOfFrame (msg : List UInt8) : Option Role :=
  [Role.K, .A, .F, .L, .B].find? (fun role => msg.head? == some role.byte)

/-- The answers to the registration frames, read off the connections. -/
def StreamEnv.answers (E : StreamEnv σ τ ν) : Answers where
  dial := E.dial
  reply msg :=
    match roleOfFrame msg with
    | some role => (readAck (E.conn role)).1
    | none => .silent
  -- the park phase and the relay are those of the stream itself
  park := none
  relay _ := none

def serveRelay (a : ServingAgent) (E : StreamEnv σ τ ν) (relay : Relay) (client : Handed σ) : Served :=
  match relay with
  | .framedDuplexToOrigin => E.framed client
  | .duplexToOrigin => serveDuplexToOrigin E.hmac E.duplex a.terminator client
  | .noiseStream => serveNoiseStream a.gate E.noise client
  | .noiseUdp => serveNoiseUdp E.noise client

/-- One accepted stream of `serve_quic_connection`. -/
def serveQuicStream (a : ServingAgent) (E : StreamEnv σ τ ν) : Served :=
  -- the mode alone decides here, with or without a hostname
  if a.config.browserForward then serveRelay a E .duplexToOrigin (.plain E.quicStream)
  else
    match a.config.originProto with
    | .tcp => serveRelay a E .noiseStream (.plain E.quicStream)
    | .udp => serveRelay a E .noiseUdp (.plain E.quicStream)

/-- One attempt of `tcp_connect_register_serve`, with the stream it hands to the relay. -/
def serveFallbackStream (a : ServingAgent) (E : StreamEnv σ τ ν) : Served :=
  match registerRole a.fallbackCtx E.answers with
  | .error _ => ([], .error "not registered")
  | .ok role =>
    match (handOff role a.token.toList (a.config.hostname.getD []) E.pongWrite (E.conn role)).2 with
    | .error _ => ([], .error "ended while parked")
    | .ok client => serveRelay a E (relayOf a.fallbackCtx role) client

/-- The policy `run_agent` starts the direct listener with, and what is read of it at one connection. -/
def ServingAgent.directCheck (a : ServingAgent) (D : DirectEnv σ) : Direct.DirectCheck where
  policy := ⟨a.token.toList, a.config.directRequireToken⟩
  revoked := D.revoked
  lateMessage1 := D.lateMessage1
  lateMessage2 := D.lateMessage2
  lateGate := D.lateGate

/-- The Noise relay for the Origin's protocol. -/
def serveNoiseWithPolicy (direct : Option Direct.DirectCheck) (proto : OriginProto) (mode : GateMode)
    (E : NoiseEnv (Handed σ) ν) (client : Handed σ) : Served :=
  match proto with
  | .tcp => serveNoiseStreamWithPolicy direct mode E client
  | .udp => serveNoiseUdpWithPolicy direct E client

/-- One connection of the listener that `run_agent` opens for an advertised address, in every mode and
without the terminator. -/
def serveDirectStream (a : ServingAgent) (E : StreamEnv σ τ ν) : Served :=
  match a.config.directAdvertiseIp with
  | none => ([], .ok ())
  | some _ =>
    match E.direct.stream with
    | none => ([], .ok ())
    | some stream =>
      serveNoiseWithPolicy (some (a.directCheck E.direct)) a.config.originProto a.gate E.noise (.plain stream)

def serveStream (a : ServingAgent) (E : StreamEnv σ τ ν) : Transport → Served
  | .quic => serveQuicStream a E
  | .tcpFallback => serveFallbackStream a E
  | .direct => serveDirectStream a E

/-- An attempt at one role after another ends with one of them, or as the last one goes on. -/
theorem registerOrElse_ok {A : Answers} {register : Role → Except RegisterError Unit} {role role' : Role}
    {next : RegisterError → Except RegisterEnd Role}
    (h : registerOrElse A register role next = .ok role') : role' = role ∨ ∃ e, next e = .ok role' := by
  unfold registerOrElse at h
  split at h
  · cases h
  · split at h
    · cases h
      exact .inl rfl
    · exact .inr ⟨_, h⟩

/-- A browser agent with a hostname and a terminator is served by the raw relay, whichever of its
registrations the edge took. -/
theorem registerRole_raw {ctx : FallbackCtx} {A : Answers} {host : List UInt8} {role : Role}
    (hb : ctx.config.browserForward = true) (hh : ctx.config.hostname = some host)
    (ht : ctx.terminator = true) (h : registerRole ctx A = .ok role) :
    relayOf ctx role = .duplexToOrigin := by
  simp only [registerRole, hb, hh, ht, Bool.not_true, Bool.and_false] at h
  rcases registerOrElse_ok h with rfl | ⟨e, h⟩
  · rfl
  · rcases registerOrElse_ok h with rfl | ⟨e', h⟩
    · rfl
    · cases h

/-- Whatever the stream carries and meets, the Origin waits for the owner of `key`. -/
def OwnerFirst (a : ServingAgent) (key : OwnerKey) (t : Transport) : Prop :=
  ∀ (σ τ ν : Type) [ByteSource σ] [ByteSource τ] (E : StreamEnv σ τ ν), Gated key (serveStream a E t).1

theorem quic_owner_first {a : ServingAgent} {key : OwnerKey} (hb : a.config.browserForward = true)
    (ht : a.terminator = some ⟨.required key⟩) : OwnerFirst a key .quic := by
  intro σ τ ν _ _ E
  simp only [serveStream, serveQuicStream, hb, if_true, serveRelay, ht]
  exact serveDuplexToOrigin_gated E.hmac E.duplex key _

theorem fallback_owner_first {a : ServingAgent} {key : OwnerKey} (hb : a.config.browserForward = true)
    (ht : a.terminator = some ⟨.required key⟩) (hh : a.config.hostname.isSome = true) :
    OwnerFirst a key .tcpFallback := by
  obtain ⟨host, hhost⟩ := Option.isSome_iff_exists.mp hh
  intro σ τ ν _ _ E
  simp only [serveStream, serveFallbackStream]
  split
  · exact Gated.nil key
  · rename_i role hrole
    have hrelay : relayOf a.fallbackCtx role = .duplexToOrigin :=
      registerRole_raw hb hhost (by simp [ServingAgent.fallbackCtx, ht]) hrole
    split
    · exact Gated.nil key
    · simp only [hrelay, serveRelay, ht]
      exact serveDuplexToOrigin_gated E.hmac E.duplex key _

/-- Where no address is advertised there is no direct listener. -/
theorem direct_owner_first {a : ServingAgent} {key : OwnerKey} (hd : a.config.directAdvertiseIp = none) :
    OwnerFirst a key .direct := by
  intro σ τ ν _ _ E
  simp only [serveStream, serveDirectStream, hd]
  exact Gated.nil key

/-- `OK`, STOP, a message 1 and a credential, both empty. -/
def noiseClient : Pieces := [[0x4F, 0x4B, 0xFB, 0, 0, 0, 0]]

/-- A request with the empty user name and the empty password. -/
def emptyLogin : Bytes := utf8 "GET / HTTP/1.1\r\nAuthorization: Basic Og==\r\n\r\n"

/-- A gate that knows one user, both of whose credentials are empty. -/
def emptyGate : GateView :=
  ⟨fun _ => Vector.replicate 32 0, ⟨some ⟨"", Vector.replicate 16 0, Vector.replicate 32 0⟩, .new, .new, none⟩,
    1000, 1000, 1000, none, "", Vector.replicate 32 0⟩

theorem emptyGate_http : emptyGate.http emptyLogin = .proceed := by
  have hparse : parseBasicAuth emptyLogin = some ("", []) := by decide +kernel
  simp only [GateView.http, hparse]
  rfl

/-- A Client that passes the Noise handshake and the gate, on whatever it sends, with the tunnel's token in
its handshake. -/
def noiseEnv (token : Vector UInt8 32) : StreamEnv Pieces Pieces Unit where
  hmac _ _ := Vector.replicate 32 0
  quicStream := []
  dial _ := none
  conn _ := noiseClient
  pongWrite _ := none
  direct := ⟨some [[0, 0, 0, 0]], false, false, false, false⟩
  duplex := ⟨none, fun _ => .stalled, ⟨Vector.replicate 32 0, none, false, none⟩, ⟨none, none, [], none⟩⟩
  noise :=
    { originHandshakeAnyWithPayload := fun _ => some ((), Direct.directHsPayloadTokenV1 :: token.toList)
      message2Write := none
      gateWrite := none
      localAuth := emptyGate
      readMessage := fun _ _ => some (emptyLogin, ())
      origin := ⟨none, none, [], none⟩
      pump := fun _ _ => []
      pumpEnd := none
      udpBind := none
      udpConnect := none
      udpTurns := 0
      udpSend := fun _ => none }
  framed _ := ([], .ok ())

/-- Every mode of the gate lets that Client pass. -/
theorem noiseEnv_passes (token : Vector UInt8 32) (mode : GateMode) {client client' : Handed Pieces}
    {body : Bytes} (hread : readFrame client = some (body, client')) : ∃ first transport client2,
    runLocalAuthGate mode (noiseEnv token).noise () client = .ok (.proceed first transport client2) := by
  have hmsg : readGateMessage (noiseEnv token).noise () client = .ok (emptyLogin, (), client') := by
    simp only [readGateMessage, hread]
    rfl
  cases mode with
  | off => exact ⟨none, (), client, rfl⟩
  | http =>
    refine ⟨some emptyLogin, (), client', ?_⟩
    have hhttp : (noiseEnv token).noise.localAuth.http emptyLogin = .proceed := emptyGate_http
    simp only [runLocalAuthGate, hmsg, hhttp]
  | textChallenge =>
    refine ⟨none, (), client', ?_⟩
    have hpass : (noiseEnv token).noise.localAuth.password (trimTrailingLineEnding emptyLogin) = true := rfl
    have hwrite : (noiseEnv token).noise.gateWrite = none := rfl
    simp only [runLocalAuthGate, hwrite, hmsg, hpass, if_true]

/-- Two empty frames in a row. -/
structure TwoFrames (client client1 client2 : Handed Pieces) : Prop where
  message1 : readFrame client = some ([], client1)
  credential : readFrame client1 = some ([], client2)

/-- A Noise relay dials for that Client, whatever the gate's mode, where no check stands in its way. -/
theorem noiseEnv_dials (a : ServingAgent) (proto : OriginProto) {direct : Option Direct.DirectCheck}
    {client client1 client2 : Handed Pieces} (hframes : TwoFrames client client1 client2)
    (ha : acceptNoise direct (noiseEnv a.token).noise client = .ok ((), client1))
    (hlate : direct.any (fun d => d.lateGate) = false) : ∃ trace,
    (serveNoiseWithPolicy direct proto a.gate (noiseEnv a.token).noise client).1 = .dialed :: trace := by
  cases proto with
  | tcp =>
    obtain ⟨first, transport, client3, hpass⟩ := noiseEnv_passes a.token a.gate hframes.credential
    exact serveNoiseStreamWithPolicy_dials ha hlate hpass
  | udp => exact serveNoiseUdpWithPolicy_dials ha rfl

/-- Without a hostname the fallback registers for Noise, where no owner is asked for. -/
theorem fallback_without_hostname {a : ServingAgent} (key : OwnerKey) (hh : a.config.hostname = none) :
    ¬ OwnerFirst a key .tcpFallback := by
  intro h
  have hrole : registerRole a.fallbackCtx (noiseEnv a.token).answers = .ok .K := by
    simp only [registerRole, ServingAgent.fallbackCtx, hh]
    cases a.config.browserForward with
    | true => rfl
    | false => rfl
  have hhand : (handOff .K a.token.toList (a.config.hostname.getD []) (noiseEnv a.token).pongWrite
      ((noiseEnv a.token).conn .K)).2 = .ok (.prefixed (Prefixed.new [] [[0, 0, 0, 0]])) := rfl
  have hframes : TwoFrames (.prefixed (Prefixed.new [] [[0, 0, 0, 0]]))
      (.prefixed (Prefixed.new [] [[0, 0]])) (.prefixed (Prefixed.new [] [[]])) := ⟨rfl, rfl⟩
  have ha : acceptNoise none (noiseEnv a.token).noise (.prefixed (Prefixed.new [] [[0, 0, 0, 0]])) =
      .ok ((), .prefixed (Prefixed.new [] [[0, 0]])) := rfl
  obtain ⟨trace, htrace⟩ := noiseEnv_dials a a.config.originProto hframes ha (Option.any_none ..)
  have hg : Gated key (serveStream a (noiseEnv a.token) .tcpFallback).1 :=
    h Pieces Pieces Unit (noiseEnv a.token)
  have hrelay : serveRelay a (noiseEnv a.token) (relayOf a.fallbackCtx .K)
      (.prefixed (Prefixed.new [] [[0, 0, 0, 0]])) =
      serveNoiseWithPolicy none a.config.originProto a.gate (noiseEnv a.token).noise
        (.prefixed (Prefixed.new [] [[0, 0, 0, 0]])) := by
    cases hp : a.config.originProto with
    | tcp =>
      simp only [relayOf, ServingAgent.fallbackCtx, hp, serveRelay, serveNoiseStream, serveNoiseWithPolicy]
    | udp =>
      simp only [relayOf, ServingAgent.fallbackCtx, hp, serveRelay, serveNoiseUdp, serveNoiseWithPolicy]
  simp only [serveStream, serveFallbackStream, hrole, hhand, hrelay, htrace] at hg
  exact not_gated_dialed key trace hg

/-- The direct listener asks for the token and the gate, and for no owner. -/
theorem direct_without_owner {a : ServingAgent} (key : OwnerKey) (hd : a.config.directAdvertiseIp ≠ none) :
    ¬ OwnerFirst a key .direct := by
  intro h
  obtain ⟨ip, hip⟩ := Option.ne_none_iff_exists'.mp hd
  have hframes : TwoFrames (.plain [[0, 0, 0, 0]]) (.plain [[0, 0]]) (.plain [[]]) := ⟨rfl, rfl⟩
  have hrefusal : (a.directCheck (noiseEnv a.token).direct).refusal
      (Direct.directHsPayloadTokenV1 :: a.token.toList) = none := by
    have hlen : (Direct.directHsPayloadTokenV1 :: a.token.toList).length =
      Direct.directHsPayloadTokenV1Len := by
      simp [Direct.directHsPayloadTokenV1Len]
    simp [Direct.DirectCheck.refusal, Direct.parseDirectHandshakePayload, hlen, ServingAgent.directCheck,
      Direct.DirectTokenPolicy.decide, noiseEnv, (ctEq_iff _ _).mpr rfl,
        Direct.DirectTokenDecision.refusalLine]
  have ha : acceptNoise (some (a.directCheck (noiseEnv a.token).direct)) (noiseEnv a.token).noise
      (.plain [[0, 0, 0, 0]]) = .ok ((), .plain [[0, 0]]) := by
    have hlate1 : (a.directCheck (noiseEnv a.token).direct).lateMessage1 = false := rfl
    have hlate2 : (a.directCheck (noiseEnv a.token).direct).lateMessage2 = false := rfl
    have hpayload : ∀ m1, (noiseEnv a.token).noise.originHandshakeAnyWithPayload m1 =
      some ((), Direct.directHsPayloadTokenV1 :: a.token.toList) := fun _ => rfl
    have hwrite : (noiseEnv a.token).noise.message2Write = none := rfl
    simp only [acceptNoise, Option.any_some, hlate1, hlate2, Bool.false_eq_true, if_false, hframes.message1,
      hpayload, Option.bind_some, hrefusal, hwrite]
  obtain ⟨trace, htrace⟩ := noiseEnv_dials a a.config.originProto hframes ha rfl
  have hg : Gated key (serveStream a (noiseEnv a.token) .direct).1 := h Pieces Pieces Unit (noiseEnv a.token)
  have hstream : (noiseEnv a.token).direct.stream = some [[0, 0, 0, 0]] := rfl
  simp only [serveStream, serveDirectStream, hip, hstream, htrace] at hg
  exact not_gated_dialed key trace hg

/-- Where the owner comes first: over QUIC, over the fallback with a hostname bound, and at a direct
listener that is not there. -/
def AsksOwner (a : ServingAgent) : Transport → Prop
  | .quic => True
  | .tcpFallback => a.config.hostname.isSome = true
  | .direct => a.config.directAdvertiseIp = none

/-- In browser mode the owner of a required key comes before the Origin exactly there. -/
theorem owner_first_iff (a : ServingAgent) (key : OwnerKey) (hb : a.config.browserForward = true)
    (ht : a.terminator = some ⟨.required key⟩) (t : Transport) : OwnerFirst a key t ↔ AsksOwner a t := by
  cases t with
  | quic =>
    constructor
    · intro _
      exact trivial
    · intro _
      exact quic_owner_first hb ht
  | tcpFallback =>
    constructor
    · intro h
      by_contra hnone
      exact fallback_without_hostname key (by simpa [AsksOwner] using hnone) h
    · intro h
      exact fallback_owner_first hb ht h
  | direct =>
    constructor
    · intro h
      by_contra hsome
      exact direct_without_owner key hsome h
    · intro h
      exact direct_owner_first h

/-- A browser agent that may lack a hostname, with a direct listener. -/
def unnamedAgent (hostname : Option (List UInt8)) : ServingAgent where
  config :=
    { browserForward := true
      hostname := hostname
      framedFallback := true
      fallback443 := false
      originProto := .tcp
      directAdvertiseIp := some (.v4 ⟨203, 0, 113, 5⟩)
      directRequireToken := true }
  token := Vector.replicate 32 0
  terminator := some ⟨.required ⟨Vector.replicate 32 7⟩⟩
  gate := .off

theorem owner_first_iff_sample :
    OwnerFirst (unnamedAgent (some [0x61])) ⟨Vector.replicate 32 7⟩ .tcpFallback :=
  (owner_first_iff (unnamedAgent (some [0x61])) ⟨Vector.replicate 32 7⟩ rfl rfl .tcpFallback).mpr rfl

/-- The Noise Client gets the Origin of an agent that has no hostname, and a direct Client that of any. -/
theorem unnamed_agent_serves_noise :
    (¬ OwnerFirst (unnamedAgent none) ⟨Vector.replicate 32 7⟩ .tcpFallback) ∧
      ¬ OwnerFirst (unnamedAgent (some [0x61])) ⟨Vector.replicate 32 7⟩ .direct :=
  ⟨fallback_without_hostname ⟨Vector.replicate 32 7⟩ rfl,
    direct_without_owner ⟨Vector.replicate 32 7⟩ nofun⟩

end

end CtAgent.Serve
