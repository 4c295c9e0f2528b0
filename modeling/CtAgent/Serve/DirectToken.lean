import CtAgent.Codec

/-! The routing token a direct client carries in its handshake, and the check of it (serve.rs). -/
namespace CtAgent.Serve.Direct
open CtAgent.Lib CtAgent.Codec

def directHsPayloadTokenV1 : UInt8 := 0x01

/-- The tag and the token. -/
def directHsPayloadTokenV1Len : ℕ := 33

inductive DirectHandshakePayload
  | legacy
  | token (t : Bytes)
  | malformed
  deriving DecidableEq, Repr

def parseDirectHandshakePayload (payload : Bytes) : DirectHandshakePayload :=
  match payload with
  | tag :: rest =>
    if tag = directHsPayloadTokenV1 then
      if payload.length ≠ directHsPayloadTokenV1Len then .malformed else .token rest
    else .legacy
  | [] => .legacy

inductive DirectTokenDecision
  | serve | serveLegacy | refuseMismatch | refuseMissing | refuseMalformed | refuseRevoked
  deriving DecidableEq, Repr

namespace DirectTokenDecision

def refusalLine : DirectTokenDecision → Option String
  | .serve | .serveLegacy => none
  | .refuseMismatch =>
    some "ct-agent: direct-connect refused: routing token does not match this tunnel (#45)"
  | .refuseMissing =>
    some ("ct-agent: direct-connect refused: handshake carried no routing token, which is required " ++
      "(default since #291; ct-clients built before CADS-Tunnel v0.4.20 send none -- update the " ++
      "client) (#45)")
  | .refuseMalformed =>
    some "ct-agent: direct-connect refused: malformed routing-token handshake payload (#45)"
  | .refuseRevoked =>
    some "ct-agent: direct-connect refused: this tunnel's token is revoked at the plane (#45)"

end DirectTokenDecision

structure DirectTokenPolicy where
  ownToken : Bytes
  requireToken : Bool

/-- `decide`, with the flag it reads from the shared view. -/
def DirectTokenPolicy.decide (P : DirectTokenPolicy) (revoked : Bool) (payload : DirectHandshakePayload) :
    DirectTokenDecision :=
  -- in front of the tolerance for clients without a token, which never outranks a revocation
  if revoked then .refuseRevoked
  else match payload with
    | .token t => if ctEq t P.ownToken then .serve else .refuseMismatch
    | .legacy => if P.requireToken then .refuseMissing else .serveLegacy
    | .malformed => .refuseMalformed

/-- What a direct connection is held to up to its dial: the policy, the flag of the revocation view at the
check, and whether the deadline has passed as message 1 is read, message 2 written and the gate run. -/
structure DirectCheck where
  policy : DirectTokenPolicy
  revoked : Bool
  lateMessage1 : Bool
  lateMessage2 : Bool
  lateGate : Bool

/-- `check_direct_token`: the line of a refusal. -/
def DirectCheck.refusal (d : DirectCheck) (payload : Bytes) : Option String :=
  (d.policy.decide d.revoked (parseDirectHandshakePayload payload)).refusalLine

end CtAgent.Serve.Direct
