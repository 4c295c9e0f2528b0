import CtAgent.Codec
import CtAgent.Channel.PeerGrant

/-! The opt-in peer pin, and the admission answers it is checked against. -/
namespace CtAgent.Channel
open CtAgent.Lib CtAgent.Codec

abbrev Attestation := Vector UInt8 64

/-- What ct-common decides: the id of a link channel, and whether a holder attested a Noise key for
a channel. -/
structure ChannelCommon where
  channelIdForLink : Key → Key → Key → Key
  verifyMemberNoiseAttestation : Key → Key → Key → Attestation → Bool
  relayOnlyEndpoint : String

structure PinnedPeer where
  holder : Key
  noise : Option Key
  deriving DecidableEq, Repr

inductive PeerPin where
  | link (operator : Key)
  | peers (peers : List PinnedPeer)
  deriving DecidableEq, Repr

def hex (key : Key) : String := hexEncode key.toList

/-- The walk over the pinned partners: an entry for the holder with another Noise key does not end
it, and is remembered for the reason. -/
def checkPeers (holder noise : Key) : Option Key → List PinnedPeer → Except String Unit
  | pinned, [] =>
    match pinned with
    | some n => .error (s!"holder {hex holder} is pinned with Noise key {hex n}, but admission attested " ++
      s!"{hex noise} -- a rotated or rolled-back key needs a new pin (CADS-Tunnel#574)")
    | none => .error s!"holder {hex holder} is not pinned"
  | pinned, p :: ps =>
    if p.holder = holder then
      match p.noise with
      | none => .ok ()
      | some n => if n = noise then .ok () else checkPeers holder noise (some n) ps
    else checkPeers holder noise pinned ps

def PeerPin.check (common : ChannelCommon) (channel ownHolder holder noise : Key) :
    PeerPin → Except String Unit
  | .link operator =>
    if common.channelIdForLink operator ownHolder holder = channel then .ok ()
    else .error (s!"CT_CHANNEL_PEER_PIN=link, but this channel is not the link channel of this holder and " ++
      s!"holder {hex holder} under operator {hex operator} -- the edge paired another member, or the " ++
      "channel id was not derived as a link for this pair under this operator key (after an operator-key " ++
      "rotation the id keeps the old derivation: pin the holder instead)")
  | .peers ps => checkPeers holder noise none ps

/-- The errors the joins tell apart; `text` is what they print. -/
inductive JoinError where
  | admissionRefused (text : String) (category : Option String)
  | parkExpired (text : String)
  | peerNotPinned (why : String)
  | ownGrantEnded (why : String)
  | other (text : String)
  deriving DecidableEq, Repr

namespace JoinError

def text : JoinError → String
  | .admissionRefused text (some category) => s!"{text} [{category}]"
  | .admissionRefused text none => text
  | .parkExpired text => text
  | .peerNotPinned why => s!"peer not pinned: {why} -- session refused before the Noise handshake"
  | .ownGrantEnded why => why
  | .other text => text

def isDefinitiveAdmissionRefusal : JoinError → Bool
  | .admissionRefused _ _ => true
  | e => decide ("refused the channel join".toList <:+: e.text.toList)

def isParkExpired : JoinError → Bool
  | .parkExpired _ => true
  | _ => false

def isRevokedGrantRefusal : JoinError → Bool
  | .admissionRefused _ (some category) => category == "grant-revoked"
  | _ => false

/-- An admission refusal that says this member's own grant is over. -/
def ownGrantRefusal (ownExpiresAt : Option ℕ) (now : ℕ) : JoinError → Bool
  | .admissionRefused _ (some category) =>
    category == "grant-revoked" ||
      (category == "grant-verify" && ownExpiresAt.any (fun at_ => decide (at_ ≤ now)))
  | _ => false

end JoinError

/-- The channel and the holder of this member's own grant, and what it advertises. -/
structure JoinRequest where
  channel : Key
  holder : Key
  expiresAt : ℕ
  deriving DecidableEq, Repr

inductive ChannelJoinOutcome where
  | admitted (endpoint : String) (noise holder : Option Key) (attestation : Option Attestation)
  | refused (category : Option String)
  | parkExpired
  deriving DecidableEq, Repr

section
variable (common : ChannelCommon) (request : JoinRequest)

def checkPeerPin (pin : Option PeerPin) (holder noise : Key) : Except JoinError Unit :=
  match pin with
  | none => .ok ()
  | some pin =>
    match pin.check common request.channel request.holder holder noise with
    | .ok () => .ok ()
    | .error why => .error (.peerNotPinned why)

/-- The peer's Noise key and holder, once the holder's attestation of the key verified. -/
def verifyRelayedDcutrPeer (noise : Key) (holder : Option Key) (attestation : Option Attestation) :
    Except JoinError (Key × Key) :=
  match holder, attestation with
  | none, _ =>
    .error (.other "relay admitted the DCUtR join but relayed no peer holder -- cannot verify (#101)")
  | some _, none => .error (.other "relay admitted the DCUtR join but relayed no attestation (#101)")
  | some holder, some attestation =>
    if common.verifyMemberNoiseAttestation request.channel holder noise attestation then
      .ok (noise, holder)
    else
      .error (.other "peer Noise-key attestation failed -- refusing to pin a possibly-substituted key (#101)")

end

theorem checkPeerPin_ok {common : ChannelCommon} {request : JoinRequest} {pin : PeerPin}
    {holder noise : Key} (h : checkPeerPin common request (some pin) holder noise = .ok ()) :
    pin.check common request.channel request.holder holder noise = .ok () := by
  unfold checkPeerPin at h
  dsimp only at h
  split at h
  · rename_i hc
    rw [hc]
  · cases h

/-- A pin of listed partners lets exactly those through that an entry names. -/
theorem checkPeers_ok_iff (holder noise : Key) (pinned : Option Key) (peers : List PinnedPeer) :
    checkPeers holder noise pinned peers = .ok () ↔
      ∃ p ∈ peers, p.holder = holder ∧ (p.noise = none ∨ p.noise = some noise) := by
  induction peers generalizing pinned with
  | nil => cases pinned <;> simp [checkPeers]
  | cons p ps ih =>
    simp only [List.mem_cons, exists_eq_or_imp, checkPeers]
    by_cases hh : p.holder = holder
    · rw [if_pos hh]
      cases hn : p.noise with
      | none => simp [hh]
      | some n =>
        by_cases he : n = noise
        · simp [hh, he]
        · simp [he, ih]
    · rw [if_neg hh]
      simp [hh, ih]

end CtAgent.Channel
