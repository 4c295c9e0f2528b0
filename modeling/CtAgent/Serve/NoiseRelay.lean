import CtAgent.LocalAuth.BasicAuth
import CtAgent.Serve.DirectToken
import CtAgent.Serve.OwnerAuth

/-! The relays behind a Noise session, `serve_noise_stream_with_policy` and `serve_noise_udp_with_policy`,
with the local credential gate in front of the first (serve.rs). A relayed stream has no token check and no
deadline, a direct one has both. -/
namespace CtAgent.Serve

open CtAgent.Lib CtAgent.Lib.ByteSource CtAgent.Codec CtAgent.LocalAuth

inductive GateMode
  | off
  | http
  | textChallenge
  deriving DecidableEq, Repr

/-- What the gate says to an HTTP request: its credential and, without one, its share link. -/
inductive HttpVerdict
  | proceed
  | redirect (response : Bytes)
  | rejected (text : String)
  deriving DecidableEq, Repr

/-- The gate as one stream meets it: the clock at the reads of it, and for a redemption the fault of the
store, the text of its error and the secret drawn. -/
structure GateView where
  sha256 : Bytes → Vector UInt8 32
  gate : LocalAuthGate
  now : ℕ
  checkedAt : ℕ
  recordedAt : ℕ
  fault : Option StoreFault
  storeError : String
  secret : Secret

/-- `Display` of `LinkRejection`, with the text of a store's error. -/
def linkRejectionText (storeError : String) : LinkRejection → String
  | .unknown => "unknown token"
  | .expired => "link expired"
  | .revoked => "link revoked"
  | .alreadyUsed => "single-use link already redeemed"
  | .store => s!"links file: {storeError}"

def linkRejected (why : String) : HttpVerdict := .rejected s!"local-auth gate: share link rejected ({why})"

namespace GateView

def checkShareLink (V : GateView) (request : Bytes) : LinkGateVerdict :=
  (V.gate.checkShareLinkAt V.sha256 V.now V.checkedAt V.recordedAt V.fault V.secret request).1

/-- The HTTP mode of `run_local_auth_gate` on the request it has read. -/
def http (V : GateView) (request : Bytes) : HttpVerdict :=
  match parseBasicAuth request with
  | some (user, pass) =>
    match (V.gate.verify V.sha256 V.checkedAt V.recordedAt user pass).1 with
    | .ok () => .proceed
    | .error _ => .rejected "local-auth gate: HTTP credential rejected"
  | none =>
    match V.checkShareLink request with
    | .authenticated _ => .proceed
    | .redirect response _ => .redirect response
    | .rejected why => linkRejected (linkRejectionText V.storeError why)
    | .rateLimited retryAfter => linkRejected s!"rate limited, retry in {retryAfter}s"
    -- a first request of a browser, which costs nothing
    | .notPresented => .rejected "local-auth gate: HTTP credential rejected"

/-- `verify_password_only` in the text mode. -/
def password (V : GateView) (attempt : Bytes) : Bool :=
  (V.gate.verifyPasswordOnly V.sha256 V.checkedAt V.recordedAt attempt).1.isOk

end GateView

/-- What a Noise relay meets: the handshake with a message 1 up to the transport state and the payload it
carried, the writes that fail, the local gate, the decryption of a frame, the pieces `noise_pump` brings to
the Origin before it ends, and for UDP the socket and how many frames are relayed before the other half
ends. -/
structure NoiseEnv (σ ν : Type) where
  originHandshakeAnyWithPayload : Bytes → Option (ν × Bytes)
  message2Write : Option String
  gateWrite : Option String
  localAuth : GateView
  readMessage : ν → Bytes → Option (Bytes × ν)
  origin : OriginEnv
  pump : ν → σ → List Bytes
  pumpEnd : Option String
  udpBind : Option String
  udpConnect : Option String
  udpTurns : ℕ
  udpSend : Bytes → Option String

section
variable {σ ν : Type}

/-- `noise_pump` over the dialed Origin, behind the request the gate has used up. -/
def pumpToOrigin (E : NoiseEnv σ ν) (first : Option Bytes) (transport : ν) (client : σ) : Served :=
  match E.origin.connect with
  | some e => ([.dialed], .error e)
  | none =>
    let pumped := (E.pump transport client).map OriginEvent.sent
    match first with
    | none => (.dialed :: pumped, ended E.pumpEnd)
    | some first =>
      match E.origin.firstWrite with
      | some e => ([.dialed, .sent first], .error e)
      | none => (.dialed :: .sent first :: pumped, ended E.pumpEnd)

theorem pumpToOrigin_dials (E : NoiseEnv σ ν) (first : Option Bytes) (transport : ν) (client : σ) :
    ∃ trace, (pumpToOrigin E first transport client).1 = .dialed :: trace := by
  unfold pumpToOrigin
  split
  · exact ⟨[], rfl⟩
  · dsimp only
    split
    · exact ⟨_, rfl⟩
    · split <;> exact ⟨_, rfl⟩

variable [ByteSource σ]

/-- `read_frame`: a length of two bytes and the body. -/
def readFrame (s : σ) : Option (Bytes × σ) :=
  match readExact 2 s with
  | some ([hi, lo], s) => readExact (hi.toNat * 256 + lo.toNat) s
  | _ => none

/-- `trim_trailing_line_ending`. -/
def trimTrailingLineEnding (bytes : Bytes) : Bytes :=
  match bytes.reverse with
  | 0x0A :: 0x0D :: rest => rest.reverse
  | 0x0A :: rest => rest.reverse
  | _ => bytes

inductive GateOutcome (σ ν : Type)
  | proceed (first : Option Bytes) (transport : ν) (client : σ)
  | closed

def readGateMessage (E : NoiseEnv σ ν) (transport : ν) (client : σ) : Except String (Bytes × ν × σ) :=
  match readFrame client with
  | none => .error "early eof"
  | some (ct, client) =>
    match E.readMessage transport ct with
    | none => .error "local-auth gate: noise decrypt: decrypt error"
    | some (plaintext, transport) => .ok (plaintext, transport, client)

def runLocalAuthGate (mode : GateMode) (E : NoiseEnv σ ν) (transport : ν) (client : σ) :
    Except String (GateOutcome σ ν) :=
  match mode with
  -- without a gate nothing of the Client is read here
  | .off => .ok (.proceed none transport client)
  | .http =>
    match readGateMessage E transport client with
    | .error e => .error e
    | .ok (plaintext, transport, client) =>
      match E.localAuth.http plaintext with
      | .proceed => .ok (.proceed (some plaintext) transport client)
      | .redirect _ =>
        -- the answer that sets the cookie, behind which the stream is closed
        match E.gateWrite with
        | some e => .error e
        | none => .ok .closed
      -- the rejection is written first, and a write that fails takes its place
      | .rejected text => .error (E.gateWrite.getD text)
  | .textChallenge =>
    match E.gateWrite with
    | some e => .error e
    | none =>
      match readGateMessage E transport client with
      | .error e => .error e
      | .ok (attempt, transport, client) =>
        -- one attempt on each stream
        if E.localAuth.password (trimTrailingLineEnding attempt) then .ok (.proceed none transport client)
        else .error "local-auth gate: text-challenge credential rejected"

def preauthTimedOut : String := "direct connection not authenticated in time"

/-- The gate behind `PreAuth`: with the gate off nothing is read or written under the deadline. -/
def gateWithin (late : Bool) (mode : GateMode) (E : NoiseEnv σ ν) (transport : ν) (client : σ) :
    Except String (GateOutcome σ ν) :=
  if late && mode != .off then .error preauthTimedOut
  else runLocalAuthGate mode E transport client

/-- The responder's side of the handshake, with the token check of a direct connection in the middle. -/
def acceptNoise (direct : Option Direct.DirectCheck) (E : NoiseEnv σ ν) (client : σ) :
    Except String (ν × σ) :=
  if direct.any (fun d => d.lateMessage1) then .error preauthTimedOut
  else match readFrame client with
  | none => .error "early eof"
  | some (m1, client) =>
    match E.originHandshakeAnyWithPayload m1 with
    -- every identity of the Origin has been tried
    | none => .error "no origin identity matched the client handshake"
    | some (transport, payload) =>
      -- a relayed client's payload is not looked at
      match direct.bind (fun d => d.refusal payload) with
      | some line => .error line
      | none =>
        if direct.any (fun d => d.lateMessage2) then .error preauthTimedOut
        else match E.message2Write with
        | some e => .error e
        | none => .ok (transport, client)

def serveNoiseStreamWithPolicy (direct : Option Direct.DirectCheck) (mode : GateMode) (E : NoiseEnv σ ν)
    (client : σ) : Served :=
  match acceptNoise direct E client with
  | .error e => ([], .error e)
  | .ok (transport, client) =>
    match gateWithin (direct.any (fun d => d.lateGate)) mode E transport client with
    | .error e => ([], .error e)
    | .ok .closed => ([], .ok ())
    | .ok (.proceed first transport client) => pumpToOrigin E first transport client

def serveNoiseStream (mode : GateMode) (E : NoiseEnv σ ν) (client : σ) : Served :=
  serveNoiseStreamWithPolicy none mode E client

/-- Frame by frame to datagrams; a read that fails is the end of the tunnel. -/
def datagramsToOrigin (E : NoiseEnv σ ν) : ℕ → ν → σ → Served
  | 0, _, _ => ([], .ok ())
  | turns+1, transport, client =>
    match readFrame client with
    | none => ([], .ok ())
    | some (fr, client) =>
      match E.readMessage transport fr with
      | none => ([], .error "decrypt error")
      | some (datagram, transport) =>
        match E.udpSend datagram with
        | some e => ([.sent datagram], .error e)
        | none =>
          let r := datagramsToOrigin E turns transport client
          (.sent datagram :: r.1, r.2)

def serveNoiseUdpWithPolicy (direct : Option Direct.DirectCheck) (E : NoiseEnv σ ν) (client : σ) : Served :=
  match acceptNoise direct E client with
  | .error e => ([], .error e)
  | .ok (transport, client) =>
    match E.udpBind with
    | some e => ([], .error e)
    | none =>
      match E.udpConnect with
      | some e => ([.dialed], .error e)
      | none =>
        let r := datagramsToOrigin E E.udpTurns transport client
        (.dialed :: r.1, r.2)

def serveNoiseUdp (E : NoiseEnv σ ν) (client : σ) : Served := serveNoiseUdpWithPolicy none E client

/-- In front of the dial stand the handshake and the gate, and no owner. -/
theorem serveNoiseStreamWithPolicy_dials {direct : Option Direct.DirectCheck} {mode : GateMode}
    {E : NoiseEnv σ ν} {client client1 client2 : σ} {transport transport' : ν} {first : Option Bytes}
    (ha : acceptNoise direct E client = .ok (transport, client1))
    (hlate : direct.any (fun d => d.lateGate) = false)
    (hg : runLocalAuthGate mode E transport client1 = .ok (.proceed first transport' client2)) :
    ∃ trace, (serveNoiseStreamWithPolicy direct mode E client).1 = .dialed :: trace := by
  simp only [serveNoiseStreamWithPolicy, ha, gateWithin, hlate, Bool.false_and, Bool.false_eq_true, if_false,
    hg]
  exact pumpToOrigin_dials E first transport' client2

theorem serveNoiseUdpWithPolicy_dials {direct : Option Direct.DirectCheck} {E : NoiseEnv σ ν}
    {client client1 : σ} {transport : ν} (ha : acceptNoise direct E client = .ok (transport, client1))
    (hb : E.udpBind = none) : ∃ trace, (serveNoiseUdpWithPolicy direct E client).1 = .dialed :: trace := by
  simp only [serveNoiseUdpWithPolicy, ha, hb]
  split
  · exact ⟨_, rfl⟩
  · exact ⟨_, rfl⟩

end

end CtAgent.Serve
