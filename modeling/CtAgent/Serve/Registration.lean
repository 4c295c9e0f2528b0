import CtAgent.Lib.NetAddr
import CtAgent.Serve.Revocation

/-! Registering a tunnel on a TLS-TCP stream (transport.rs), the rungs it is tried on (ladder.rs) and
the backoff between the tries (reconnect.rs). -/
namespace CtAgent.Serve

open CtAgent.Lib

/-- The first byte of a registration frame. -/
inductive Role
  | K
  | A
  | F
  | L
  | B
  deriving DecidableEq, Repr

def Role.byte : Role → UInt8
  | .K => 0x4B
  | .A => 0x41
  | .F => 0x46
  | .L => 0x4C
  | .B => 0x42

/-- What comes back for a registration frame. -/
inductive Reply
  | ack (first second : UInt8)
  /-- a write, flush or read that fails, the end of the stream included -/
  | failed (text : String)
  /-- nothing within `REGISTER_ACK_TIMEOUT` -/
  | silent
  deriving DecidableEq, Repr

/-- The two bytes `OK`. -/
def Reply.OK : Reply := .ack 0x4F 0x4B

/-- The two bytes `NO`. -/
def Reply.NO : Reply := .ack 0x4E 0x4F

inductive RegisterError
  /-- the typed `RegistrationRefused` -/
  | refused
  | other (text : String)
  deriving DecidableEq, Repr

/-- `is_registration_refusal`: the downcast of the boxed error. -/
def isRegistrationRefusal : RegisterError → Bool
  | .refused => true
  | .other _ => false

/-- `RevocationTracker::classify_failure`. -/
def classifyFailure (e : RegisterError) (definitive : Bool) : RegistrationOutcome :=
  if !isRegistrationRefusal e then .transient
  else if definitive then .refusedDefinitive
  else .refusedAmbiguous

/-- `role(1) | token(32)`. -/
def tunnelFrame (role : Role) (token : List UInt8) : List UInt8 := role.byte :: token

/-- `role(1) | token(32) | host_len(2 BE) | host`, if the length fits in its two bytes. -/
def browserFrame (role : Role) (token host : List UInt8) : Option (List UInt8) :=
  if host.length < 2^16 then
    some (role.byte :: token ++
      [UInt8.ofNat (host.length / 256), UInt8.ofNat (host.length % 256)] ++ host)
  else none

/-- `register_tunnel_stream_with_role`, for the roles K and A. -/
def registerTunnelStreamWithRole (reply : List UInt8 → Reply) (token : List UInt8) (role : Role) :
    Except RegisterError Unit :=
  match reply (tunnelFrame role token) with
  -- no answer within the bound of 15 s
  | .silent => .error (.other "tunnel registration ack timed out after 15s")
  | .failed text => .error (.other text)
  | .ack a b =>
    if Reply.ack a b = .OK then .ok ()
    else if Reply.ack a b = .NO then .error .refused
    else .error (.other "edge rejected tunnel registration")

/-- `register_tunnel_stream_browser_with_role`, for the roles F, L and B. -/
def registerTunnelStreamBrowserWithRole (reply : List UInt8 → Reply) (token host : List UInt8)
    (role : Role) : Except RegisterError Unit :=
  match browserFrame role token host with
  | none => .error (.other "hostname too long for the browser-register frame")
  | some msg =>
    match reply msg with
    | .silent => .error (.other "browser hostname registration ack timed out after 15s")
    | .failed text => .error (.other text)
    | .ack a b =>
      -- a `NO` is not told apart from any other answer here
      if Reply.ack a b = .OK then .ok ()
      else .error (.other "edge rejected browser hostname registration")

theorem registerTunnelStreamWithRole_NO (reply : List UInt8 → Reply) (h : ∀ msg, reply msg = .NO)
    (token : List UInt8) (role : Role) :
    registerTunnelStreamWithRole reply token role = .error .refused := by
  simp only [registerTunnelStreamWithRole, h]
  rfl

/-- A refusal is only ever read off a `NO`. -/
theorem registerTunnelStreamWithRole_refused {reply : List UInt8 → Reply} {token : List UInt8}
    {role : Role} (h : registerTunnelStreamWithRole reply token role = .error .refused) :
    reply (tunnelFrame role token) = .NO := by
  unfold registerTunnelStreamWithRole at h
  split at h
  · simp at h
  · simp at h
  · rename_i a b hr
    split_ifs at h with hok hno
    · simpa [hno] using hr
    · simp at h

/-- The browser registrations never end in the typed refusal. -/
theorem registerTunnelStreamBrowserWithRole_ne_refused (reply : List UInt8 → Reply)
    (token host : List UInt8) (role : Role) :
    registerTunnelStreamBrowserWithRole reply token host role ≠ .error .refused := by
  unfold registerTunnelStreamBrowserWithRole
  repeat' split
  all_goals simp

theorem registerTunnelStreamBrowserWithRole_NO (reply : List UInt8 → Reply)
    (h : ∀ msg, reply msg = .NO) (token host : List UInt8) (role : Role) :
    ∃ text, registerTunnelStreamBrowserWithRole reply token host role = .error (.other text) := by
  unfold registerTunnelStreamBrowserWithRole
  split
  · exact ⟨_, rfl⟩
  · simp only [h]
    exact ⟨_, rfl⟩

inductive EdgeRung
  | quic (a : SocketAddr)
  | tlsTcp (a : SocketAddr)
  deriving DecidableEq, Repr

def edgeLadder (edge : SocketAddr) (fallback443 : Bool) : List EdgeRung :=
  [.quic edge, .tlsTcp edge] ++
    if fallback443 && edge.port ≠ 443 then [.tlsTcp { edge with port := 443, scopeId := 0 }] else []

def tcpRungs (edge : SocketAddr) (fallback443 : Bool) : List SocketAddr :=
  (edgeLadder edge fallback443).filterMap (fun r => match r with
    | .tlsTcp a => some a
    | .quic _ => none)

theorem tcpRungs_ne_nil (edge : SocketAddr) (fallback443 : Bool) : tcpRungs edge fallback443 ≠ [] := by
  simp [tcpRungs, edgeLadder]

/-- `Duration::MAX`, in nanoseconds. -/
def durationMax : ℕ := (2^64-1)*10^9 + (10^9-1)

/-- Durations are in nanoseconds; the two counters are `u32`s. -/
structure Backoff where
  base : ℕ
  max : ℕ
  maxAttempts : ℕ
  attempt : ℕ := 0
  deriving DecidableEq, Repr

/-- The next delay; the caller draws its jitter from it. -/
def Backoff.nextDelay (b : Backoff) : Option (ℕ × Backoff) :=
  if b.maxAttempts ≤ b.attempt then none
  else
    let shift := Nat.min b.attempt 31
    let product := b.base * 2^shift
    let delay := Nat.min (if product ≤ durationMax then product else b.max) b.max
    some (delay, { b with attempt := b.attempt + 1 })

def Backoff.reset (b : Backoff) : Backoff := { b with attempt := 0 }

end CtAgent.Serve
