import CtAgent.Lib.Bytes

/-! The peer-grant gate in front of a session's local side, as a poll state machine. A call gets
what the futures it polls answer at that moment; the inner stream's answers come with it. -/
namespace CtAgent.Channel
open CtAgent.Lib

inductive ChannelRole where
  | initiate | accept
  deriving DecidableEq, Repr

inductive Direction where
  | initiate | accept | both
  deriving DecidableEq, Repr

abbrev Key := Vector UInt8 32

/-- What the gate uses of signed channel grants: their wire form, the operator's signature check
and the fields it compares. -/
structure GrantCodec (γ : Type*) where
  wireLen : ℕ
  encode : γ → Bytes
  decode : Bytes → Except String γ
  verifyStateless : Key → γ → ℕ → Except String Unit
  channel : γ → Key
  holder : γ → Key
  direction : γ → Direction
  expiresAt : γ → ℕ

/-- `b"CTPG1"`. -/
def magic : Bytes := [67, 84, 80, 71, 49]

def peerGrantTimeoutSecs : ℕ := 10

/-- `watch`: the verified peer grant is checked again while the session runs. -/
structure PeerGrantCheck (γ : Type*) where
  operator : Key
  ownGrant : γ
  peerHolder : Key
  role : ChannelRole
  watch : Bool
  deriving DecidableEq, Repr

def ChannelRole.debug : ChannelRole → String
  | .initiate => "Initiate"
  | .accept => "Accept"

/-- A peer of this direction may take the other end of the role. -/
def complementary : ChannelRole → Direction → Bool
  | _, .both => true
  | .initiate, .accept => true
  | .accept, .initiate => true
  | _, _ => false

section
variable {γ : Type*} (codec : GrantCodec γ)

def preludeLen : ℕ := magic.length + codec.wireLen

def PeerGrantCheck.prelude (check : PeerGrantCheck γ) : Bytes := magic ++ codec.encode check.ownGrant

def PeerGrantCheck.verify (check : PeerGrantCheck γ) (prelude : Bytes) (now : ℕ) : Except String γ :=
  if magic.isPrefixOf prelude then
    match codec.decode (prelude.drop magic.length) with
    | .error e => .error s!"the peer's grant is malformed: {e}"
    | .ok grant =>
      match codec.verifyStateless check.operator grant now with
      | .error e => .error s!"the peer's grant does not verify against the operator key: {e}"
      | .ok () =>
        if codec.channel grant ≠ codec.channel check.ownGrant then
          .error "the peer's grant is for a different channel"
        else if codec.holder grant ≠ check.peerHolder then
          .error "the peer's grant is for another holder than the one admission attested"
        else if complementary check.role (codec.direction grant) then .ok grant
        else .error (s!"the peer's grant does not allow the opposite direction of this member's role " ++
          s!"({check.role.debug})")
  else .error "the peer did not present a channel grant (is CT_CHANNEL_REQUIRE_PEER_GRANT on for it?)"

end

inductive GrantEndScope where
  | own | peer
  deriving DecidableEq, Repr

structure GrantEnd where
  scope : GrantEndScope
  reason : String
  deriving DecidableEq, Repr

/-- What a poll of an inner stream answers. -/
inductive Poll (α : Type*) where
  | pending
  | error (why : String)
  | ready (a : α)
  deriving DecidableEq, Repr

/-- What the futures polled by one call answer: the expiry timer, the re-check (`some none`: its
task is gone), the revocation channel (`some none`: the handle was dropped), the deadline, the wall
clock and the inner stream. -/
structure GateEnv where
  expired : Bool
  watch : Option (Option GrantEnd)
  revoke : Option (Option String)
  deadline : Bool
  now : ℕ
  innerRead : Poll Bytes
  innerWrite : Poll ℕ
  deriving DecidableEq, Repr

/-- `expiry` is the time the timer is armed for. `record` is the caller's record of the end, when
there is one; it is shared by every gate of the session. -/
structure GrantLifetime where
  expiry : Option ℕ
  ownExpiresAt : Option ℕ
  peerExpiresAt : Option ℕ
  revoke : Bool
  watch : Bool
  ended : Option String
  record : Option (Option GrantEnd)
  deriving DecidableEq, Repr

namespace GrantLifetime

/-- Whose grant ran out, from the two expiries the timer was armed from; a tie is the own end. -/
def expiredGrant (life : GrantLifetime) : GrantEnd :=
  match life.ownExpiresAt, life.peerExpiresAt with
  | some own, some peer =>
    if peer < own then ⟨.peer, s!"the channel grant expired (the peer's, expires_at {peer})"⟩
    else ⟨.own, s!"the channel grant expired (this member's own, expires_at {own})"⟩
  | some own, none => ⟨.own, s!"the channel grant expired (this member's own, expires_at {own})"⟩
  | none, some peer => ⟨.peer, s!"the channel grant expired (the peer's, expires_at {peer})"⟩
  | none, none => ⟨.own, "the channel grant expired"⟩

/-- `GrantEndRecord::set`: the first end stays. -/
def recordEnd (e : GrantEnd) (life : GrantLifetime) : GrantLifetime :=
  { life with record := life.record.map (fun slot => some (slot.getD e)) }

def endWith (e : GrantEnd) (life : GrantLifetime) : GrantLifetime :=
  { life.recordEnd e with expiry := none, revoke := false, watch := false, ended := some e.reason }

def pollEnded (env : GateEnv) (life : GrantLifetime) : Bool × GrantLifetime :=
  if life.ended.isSome then (true, life)
  -- the timer is polled first: an expiry wins over a watch that ends at the same poll
  else if life.expiry.isSome && env.expired then (true, life.endWith life.expiredGrant)
  else
    match life.watch, env.watch with
    | true, some (some e) => (true, life.endWith e)
    | true, some none =>
      (true, life.endWith ⟨.peer, "the peer-grant re-check stopped unexpectedly; failing closed"⟩)
    | _, _ =>
      match life.revoke, env.revoke with
      | true, some (some why) => (true, life.endWith ⟨.peer, s!"the channel grant was revoked: {why}"⟩)
      -- a revocation channel that closes is no revocation
      | true, some none => (false, { life with revoke := false })
      | _, _ => (false, life)

def reason (life : GrantLifetime) : String := life.ended.getD "the channel grant ended"

end GrantLifetime

/-- The error of a refused call. -/
def denied (why : String) : String := s!"channel peer grant: {why}"

structure Gate (γ : Type*) where
  check : PeerGrantCheck γ
  out : Bytes
  outPos : ℕ
  peer : Bytes
  verified : Bool
  failed : Option String
  deadline : Bool
  deriving DecidableEq, Repr

namespace Gate
variable {γ : Type*}

def fail (why : String) (g : Gate γ) : Gate γ := { g with failed := some why }
def done (g : Gate γ) : Bool := g.verified && g.outPos == g.out.length
def armDeadline (g : Gate γ) : Gate γ := { g with deadline := true }

end Gate

/-- The gate without its inner stream; `gate` is `none` once both preludes are through. -/
structure PeerGrantGate (γ : Type*) where
  gate : Option (Gate γ)
  life : GrantLifetime
  deriving DecidableEq, Repr

/-- What `poll_read` returned: EOF, an error, bytes of the own prelude, or the inner answer. -/
inductive ReadStep where
  | eof
  | denied (error : String)
  | pending
  | prelude (bytes : Bytes)
  | inner (answer : Poll Bytes)
  deriving DecidableEq, Repr

/-- What `poll_write` returned. `verified` has the prelude that passed, `inner` the data the inner
stream was given. -/
inductive WriteStep (γ : Type*) where
  | denied (error : String)
  | collected (n : ℕ)
  | verified (n : ℕ) (prelude : Bytes) (now : ℕ) (peer : γ)
  | inner (data : Bytes) (answer : Poll ℕ)
  deriving DecidableEq, Repr

namespace PeerGrantGate
variable {γ : Type*} (codec : GrantCodec γ)

/-- `recorded`: the session runs inside `with_grant_end_record`, whose slot holds `recorded`. -/
def build (check : Option (PeerGrantCheck γ)) (ownExpiresAt : Option ℕ)
    (record : Option (Option GrantEnd)) : PeerGrantGate γ :=
  ⟨check.map (fun check => ⟨check, check.prelude codec, 0, [], false, none, false⟩),
    ⟨ownExpiresAt, ownExpiresAt, none, true, false, none, record⟩⟩

/-- The inner stream reads at most what there is room for. -/
def innerRead (env : GateEnv) (remaining : ℕ) : Poll Bytes :=
  match env.innerRead with
  | .ready bytes => .ready (bytes.take remaining)
  | r => r

/-- The inner stream writes at most what it is given. -/
def innerWrite (env : GateEnv) (data : Bytes) : Poll ℕ :=
  match env.innerWrite with
  | .ready n => .ready (min n data.length)
  | r => r

def pollRead (env : GateEnv) (remaining : ℕ) (p : PeerGrantGate γ) : ReadStep × PeerGrantGate γ :=
  match p.life.pollEnded env with
  | (true, life) => (.eof, ⟨p.gate, life⟩)
  | (false, life) =>
    match p.gate with
    | none => (.inner (innerRead env remaining), ⟨none, life⟩)
    | some g₀ =>
      let g := g₀.armDeadline
      -- the own prelude goes out in front of everything, the verdict on the peer's included
      if g.outPos < g.out.length then
        let n := min remaining (g.out.length - g.outPos)
        let g' := { g with outPos := g.outPos + n }
        (.prelude ((g.out.drop g.outPos).take n), ⟨if g'.done then none else some g', life⟩)
      else
        match g.failed with
        | some why => (.denied (denied why), ⟨some g, life⟩)
        | none =>
          if g.verified then (.inner (innerRead env remaining), ⟨none, life⟩)
          else if env.deadline then
            let why := s!"the peer did not present its grant within {peerGrantTimeoutSecs}s"
            (.denied (denied why), ⟨some (g.fail why), life⟩)
          else (.pending, ⟨some g, life⟩)

/-- The lifetime from the moment the peer's grant verified: the earlier of the two expiries. -/
def verifiedLife (check : PeerGrantCheck γ) (peer : γ) (life : GrantLifetime) : GrantLifetime :=
  let own := life.ownExpiresAt.getD (codec.expiresAt check.ownGrant)
  { life with
    ownExpiresAt := some own
    peerExpiresAt := some (codec.expiresAt peer)
    expiry := some (min own (codec.expiresAt peer))
    watch := if check.watch then true else life.watch }

def pollWrite (env : GateEnv) (data : Bytes) (p : PeerGrantGate γ) :
    WriteStep γ × PeerGrantGate γ :=
  match p.life.pollEnded env with
  | (true, life) => (.denied (denied life.reason), ⟨p.gate, life⟩)
  | (false, life) =>
    match p.gate with
    | none => (.inner data (innerWrite env data), ⟨none, life⟩)
    | some g₀ =>
      match g₀.failed with
      | some why => (.denied (denied why), ⟨some g₀, life⟩)
      | none =>
        if g₀.verified then (.inner data (innerWrite env data), ⟨some g₀, life⟩)
        else
          -- no byte behind the prelude is taken before the prelude is verified
          let n := min data.length (preludeLen codec - g₀.peer.length)
          let g := { g₀.armDeadline with peer := g₀.peer ++ data.take n }
          if g.peer.length = preludeLen codec then
            match g.check.verify codec g.peer env.now with
            | .ok peer =>
              let g' := { g with verified := true }
              (.verified n g.peer env.now peer,
                ⟨if g'.done then none else some g', verifiedLife codec g.check peer life⟩)
            | .error why => (.denied (denied why), ⟨some (g.fail why), life⟩)
          else (.collected n, ⟨some g, life⟩)

/-- `true` when the inner stream is shut down. -/
def pollShutdown (p : PeerGrantGate γ) : Bool × PeerGrantGate γ :=
  match p.gate with
  | some g =>
    -- a session that closes inside the prelude is a denial and no clean end
    if !g.verified && g.failed.isNone then
      (false, ⟨some (g.fail "the peer closed the session before presenting its grant"), p.life⟩)
    else (true, p)
  | none => (true, p)

end PeerGrantGate

end CtAgent.Channel
