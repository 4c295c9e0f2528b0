import CtAgent.Lib.History
import CtAgent.Serve.NoiseRelay
import CtAgent.Serve.Revocation

/-! The direct listener: the accept loop with its cap, the connections it serves side by side, each with
the deadline on everything before the peer is authenticated, and the token check fed by the registration
loops (serve.rs). Times are nanoseconds. -/
namespace CtAgent.Serve.Direct
open CtAgent.Lib

structure DirectLimits where
  maxConnections : ℕ
  setupTimeout : ℕ
  linger : ℕ

def DirectLimits.default : DirectLimits := ⟨256, 10 * 10^9, 30 * 10^9⟩

/-- What the loop is started with. `readMessage` is snow's `read_message` of a message 1 under one of the
Origin's keys: the state after it and the payload. -/
structure Config (κ ν : Type) where
  limits : DirectLimits
  proto : OriginProto
  policy : DirectTokenPolicy
  mode : GateMode
  originKeys : List κ
  readMessage : κ → Bytes → Option (ν × Bytes)

section
variable {κ ν : Type}

/-- `origin_handshake_any_with_payload`: the first key that decrypts wins. -/
def Config.originHandshakeAnyWithPayload (C : Config κ ν) (msg1 : Bytes) : Option (ν × Bytes) :=
  C.originKeys.findSome? (fun key => C.readMessage key msg1)

end

/-- How the task of a connection ended: without streams, in the handshake, by the token check, with an
error behind it, closed by the client or by the agent after it was served, or aborted with the loop. -/
inductive Finish
  | dropped
  | failed
  | refused (decision : DirectTokenDecision)
  | ended
  | closed
  | served
  | aborted (opened : Bool)
  deriving DecidableEq, Repr

/-- Where the task of a connection stands. Up to the gate it carries the deadline that is set when it is
polled first. -/
inductive Phase (ν : Type)
  | spawned
  | setup (deadline : ℕ)
  | message1 (deadline : ℕ)
  | message2 (deadline : ℕ) (hs : ν)
  | gate (deadline : ℕ) (transport : ν)
  | dialing
  | relaying
  | lingering (until_ : ℕ)
  | finished (how : Finish)
  deriving DecidableEq, Repr

/-- What a step of a connection adds to the counters. -/
inductive Note
  | tunnelsOpened | tunnelsFailed | directRefused | directLegacyServed
  deriving DecidableEq, Repr

/-- What happens to one connection. A read or write under the deadline carries what the transport gave. -/
inductive ConnEvent (σ ν : Type)
  | begin
  | streams (accepted : Bool)
  | setupTimeout
  | message1 (read : Option Bytes)
  | message2 (written : Bool)
  | gate (E : NoiseEnv σ ν) (client : σ)
  | dial (connected : Bool)
  | relayed (ok : Bool)
  | closed
  | lingerTimeout

section
variable {κ σ ν : Type} [ByteSource σ]

/-- The counters of the handshake are kept for TCP. -/
def Config.failed (C : Config κ ν) : List Note :=
  match C.proto with
  | .tcp => [.tunnelsFailed]
  | .udp => []

/-- `check_direct_token` on a message 1 that was read, before message 2 is written. -/
def Config.judge (C : Config κ ν) (revoked : Bool) (deadline : ℕ) (m1 : Bytes) : Phase ν × List Note :=
  match C.originHandshakeAnyWithPayload m1 with
  | none => (.finished .failed, C.failed)
  | some (hs, payload) =>
    let decision := C.policy.decide revoked (parseDirectHandshakePayload payload)
    if decision.refusalLine.isSome then (.finished (.refused decision), .directRefused :: C.failed)
    else (.message2 deadline hs, if decision = .serveLegacy then [.directLegacyServed] else [])

/-- One step of a connection's task. -/
def Config.advance (C : Config κ ν) (revoked : Bool) (now : ℕ) :
    Phase ν → ConnEvent σ ν → Option (Phase ν × List Note)
  | .spawned, .begin => some (.setup (now + C.limits.setupTimeout), [])
  -- `timeout_at` polls what it bounds before its timer
  | .setup d, .streams true => some (.message1 d, [])
  | .setup _, .streams false => some (.finished .dropped, [])
  | .setup d, .setupTimeout => if d ≤ now then some (.finished .dropped, []) else none
  -- `PreAuth` looks at its timer before the transport
  | .message1 d, .message1 read =>
    match if d ≤ now then none else read with
    | none => some (.finished .failed, C.failed)
    | some m1 => some (C.judge revoked d m1)
  | .message2 d hs, .message2 written =>
    if d ≤ now ∨ written = false then some (.finished .failed, C.failed)
    else match C.proto with
      | .tcp => some (.gate d hs, [.tunnelsOpened])
      | .udp => some (.dialing, [])
  | .gate d transport, .gate E client =>
    match gateWithin (decide (d ≤ now)) C.mode E transport client with
    | .error _ => some (.finished .ended, [])
    -- a share link's answer: the connection was served
    | .ok .closed => some (.lingering (now + C.limits.linger), [])
    | .ok (.proceed _ _ _) => some (.dialing, [])
  | .dialing, .dial connected => some (if connected then .relaying else .finished .ended, [])
  | .relaying, .relayed ok =>
    some (if ok then .lingering (now + C.limits.linger) else .finished .ended, [])
  | .lingering _, .closed => some (.finished .closed, [])
  | .lingering u, .lingerTimeout => if u ≤ now then some (.finished .served, []) else none
  | _, _ => none

/-- A connection the loop accepted. `reaped`: its task was joined and is out of the set. -/
structure Conn (ν : Type) where
  acceptedAt : ℕ
  phase : Phase ν
  reaped : Bool := false

structure Metrics where
  tunnelsOpened : ℕ := 0
  tunnelsFailed : ℕ := 0
  directRefused : ℕ := 0
  directLegacyServed : ℕ := 0
  refusedAtCapacity : ℕ := 0

def Metrics.note (m : Metrics) (ns : List Note) : Metrics :=
  { m with
    tunnelsOpened := m.tunnelsOpened + ns.count .tunnelsOpened
    tunnelsFailed := m.tunnelsFailed + ns.count .tunnelsFailed
    directRefused := m.directRefused + ns.count .directRefused
    directLegacyServed := m.directLegacyServed + ns.count .directLegacyServed }

/-- The accept loop, its connections, the counters, and the registration loops `ι` beside it. -/
structure Listener (ι ν : Type) where
  now : ℕ := 0
  running : Bool := true
  loops : Loops ι := {}
  conns : List (Conn ν) := []
  metrics : Metrics := {}

inductive Event (ι σ ν : Type)
  | tick (d : ℕ)
  | registration (loop : ι) (outcome : RegistrationOutcome)
  | incoming
  | reap (i : ℕ)
  | conn (i : ℕ) (e : ConnEvent σ ν)
  | loopEnds
  | ensureRunning

namespace Phase

def isFinished : Phase ν → Bool
  | .finished _ => true
  | _ => false

/-- The handshake was completed. -/
def isOpened : Phase ν → Bool
  | .gate _ _ | .dialing | .relaying | .lingering _ => true
  | .finished .ended | .finished .closed | .finished .served | .finished (.aborted true) => true
  | _ => false

/-- The handshake was reached and failed. -/
def isFailed : Phase ν → Bool
  | .finished .failed | .finished (.refused _) => true
  | _ => false

def isRefused : Phase ν → Bool
  | .finished (.refused _) => true
  | _ => false

/-- The deadline is not lifted: the peer is not authenticated. -/
def unauthenticated : Phase ν → Bool
  | .spawned | .setup _ | .message1 _ | .message2 _ _ | .gate _ _ => true
  | _ => false

/-- The timer the task waits on. -/
def due : Phase ν → Option ℕ
  | .setup d | .message1 d | .message2 d _ | .gate d _ => some d
  | .lingering u => some u
  | _ => none

/-- The task's future is dropped with the set that owns it. -/
def abort : Phase ν → Phase ν
  | .finished how => .finished how
  | p => .finished (.aborted p.isOpened)

end Phase

/-- `try_join_next`, as often as a task has finished. -/
def Conn.reap (c : Conn ν) : Conn ν := if c.phase.isFinished then { c with reaped := true } else c

namespace Listener
variable {ι : Type}

/-- `conns.len()`. -/
def slots (s : Listener ι ν) : ℕ := s.conns.countP (fun c => !c.reaped)

def incoming (C : Config κ ν) (s : Listener ι ν) : Listener ι ν :=
  let s := { s with conns := s.conns.map Conn.reap }
  if C.limits.maxConnections ≤ s.slots then
    { s with metrics := { s.metrics with refusedAtCapacity := s.metrics.refusedAtCapacity + 1 } }
  else { s with conns := s.conns ++ [{ acceptedAt := s.now, phase := .spawned }] }

def step [DecidableEq ι] (C : Config κ ν) (s : Listener ι ν) : Event ι σ ν → Option (Listener ι ν)
  | .tick d => some { s with now := s.now + d }
  | .registration j o => some { s with loops := s.loops.apply (j, o) }
  | .incoming => if s.running then some (s.incoming C) else none
  | .reap i =>
    match s.conns[i]? with
    | some c =>
      if s.running ∧ c.phase.isFinished then some { s with conns := s.conns.set i { c with reaped := true } }
      else none
    | none => none
  | .conn i e =>
    match s.conns[i]? with
    | some c =>
      match C.advance s.loops.view.revoked s.now c.phase e with
      | some (phase, notes) =>
        some { s with conns := s.conns.set i { c with phase }, metrics := s.metrics.note notes }
      | none => none
    | none => none
  -- the endpoint was closed under it: the set goes, and every task in it
  | .loopEnds =>
    some { s with
      running := false
      conns := s.conns.map (fun c => { c with phase := c.phase.abort, reaped := true }) }
  | .ensureRunning => some { s with running := true }

end Listener
end
end CtAgent.Serve.Direct
