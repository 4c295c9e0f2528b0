import CtAgent.Lib.Run
import CtAgent.LocalAuth.Links

/-! Histories of one process's share-link store: every call with its result, and what it drew and
wrote. A save that fails while the directory is synced has replaced the file all the same. -/
namespace CtAgent.LocalAuth
open CtAgent.Lib CtAgent.Codec CtAgent.SecretFile

inductive LinkOp where
  | mint (fault : Option StoreFault) (now ttl : ℕ) (singleUse : Bool) (label : String)
      (secret : Secret) (idBytes : IdBytes)
  | revoke (fault : Option StoreFault) (now : ℕ) (id : String)
  | redeem (fault : Option StoreFault) (now : ℕ) (token : String) (via : LinkPresentation)
      (secret : Secret)
  deriving DecidableEq, Repr

/-- `store` is a links file that could not be read or updated. -/
inductive LinkError where
  | refused (why : String)
  | store
  deriving DecidableEq, Repr

inductive LinkResult where
  | minted (r : Except LinkError MintedLink)
  | revoked (r : Except LinkError ShareLink)
  | redeemed (r : Except LinkRejection RedeemedLink)
  deriving DecidableEq, Repr

/-- One call: `drew` is the secret it generated, `reached` whether its list replaced the file. -/
structure LinkEvent where
  op : LinkOp
  result : LinkResult
  drew : Option String
  reached : Bool
  deriving DecidableEq, Repr

/-- Whether a save with this fault replaces the file. -/
def reaches : Option StoreFault → Bool
  | none | some .load | some (.write .syncDir) => true
  | _ => false

section
variable (hash : String → Vector UInt8 32)

def mintAt (fault : Option StoreFault) (now ttl : ℕ) (singleUse : Bool) (label : String)
    (secret : Secret) (idBytes : IdBytes) (file : LinksFile) :
    Except LinkError MintedLink × LinksFile :=
  match load fault file with
  | none => (.error .store, file)
  | some links =>
    match mintOn hash now ttl singleUse label secret idBytes links with
    -- a refused mint saves nothing, the pruned links included
    | .error why => (.error (.refused why), file)
    | .ok (m, links') =>
      match save fault now links' file with
      | (true, f) => (.ok m, f)
      | (false, f) => (.error .store, f)

def revokeAt (fault : Option StoreFault) (now : ℕ) (id : String) (file : LinksFile) :
    Except LinkError ShareLink × LinksFile :=
  match load fault file with
  | none => (.error .store, file)
  | some links =>
    match revokeOn now id links with
    | .error why => (.error (.refused why), file)
    | .ok (l, links') =>
      match save fault now links' file with
      | (true, f) => (.ok l, f)
      | (false, f) => (.error .store, f)

def redeemAt (fault : Option StoreFault) (now : ℕ) (token : String) (via : LinkPresentation)
    (secret : Secret) (file : LinksFile) : Except LinkRejection RedeemedLink × LinksFile :=
  -- a token of another shape is turned away in front of the file
  if looksLikeLinkToken token = false then (.error .unknown, file)
  else
    match load fault file with
    | none => (.error .store, file)
    | some links =>
      match redeemOn hash now token via secret links with
      | .error e => (.error e, file)
      | .ok (r, links') =>
        match via with
        -- a cookie only reads the store
        | .cookie => (.ok r, file)
        | .query =>
          match save fault now links' file with
          | (true, f) => (.ok r, f)
          | (false, f) => (.error .store, f)

/-- The secret a call generates, whether or not its save succeeds. -/
def drawnBy (op : LinkOp) (file : LinksFile) : Option String :=
  match op with
  | .mint fault now ttl singleUse label secret idBytes =>
    match (load fault file).map (mintOn hash now ttl singleUse label secret idBytes) with
    | some (.ok _) => some (secretToken secret)
    | _ => none
  | .revoke _ _ _ => none
  | .redeem fault now token via secret =>
    if looksLikeLinkToken token && via == .query then
      match (load fault file).map (redeemOn hash now token via secret) with
      | some (.ok _) => some (secretToken secret)
      | _ => none
    else none

def reachedBy (op : LinkOp) (file : LinksFile) : Bool :=
  match op with
  | .mint fault .. => (drawnBy hash op file).isSome && reaches fault
  | .revoke fault now id =>
    match (load fault file).map (revokeOn now id) with
    | some (.ok _) => reaches fault
    | _ => false
  | .redeem fault .. => (drawnBy hash op file).isSome && reaches fault

def perform (op : LinkOp) (file : LinksFile) : LinkResult × LinksFile :=
  match op with
  | .mint fault now ttl singleUse label secret idBytes =>
    let (r, f) := mintAt hash fault now ttl singleUse label secret idBytes file
    (.minted r, f)
  | .revoke fault now id =>
    let (r, f) := revokeAt fault now id file
    (.revoked r, f)
  | .redeem fault now token via secret =>
    let (r, f) := redeemAt hash fault now token via secret file
    (.redeemed r, f)

end

def LinkOp.now : LinkOp → ℕ
  | .mint _ now .. => now
  | .revoke _ now _ => now
  | .redeem _ now .. => now

def LinkOp.fault : LinkOp → Option StoreFault
  | .mint fault .. => fault
  | .revoke fault _ _ => fault
  | .redeem fault .. => fault

structure LinkRun where
  file : LinksFile
  clock : ℕ
  history : List LinkEvent
  deriving DecidableEq, Repr

def LinkRun.init : LinkRun := ⟨none, 0, []⟩

def LinkRun.links (s : LinkRun) : List ShareLink := s.file.getD []

/-- One call, at a time not before the previous one. -/
def LinkRun.step (hash : String → Vector UInt8 32) (s : LinkRun) (op : LinkOp) : Option LinkRun :=
  if s.clock ≤ op.now then
    some ⟨(perform hash op s.file).2, op.now,
      s.history ++ [⟨op, (perform hash op s.file).1, drawnBy hash op s.file, reachedBy hash op s.file⟩]⟩
  else none

/-- The tokens of the links that reached the file, with their single-use flag. -/
def LinkEvent.minted? (e : LinkEvent) : Option (String × Bool) :=
  match e.op with
  | .mint _ _ _ singleUse _ secret _ => if e.reached then some (secretToken secret, singleUse) else none
  | _ => none

/-- The session a redemption through the URL put on file, with the token it redeemed. -/
def LinkEvent.issued? (e : LinkEvent) : Option (String × String) :=
  match e.op with
  | .redeem _ _ token .query secret => if e.reached then some (token, secretToken secret) else none
  | _ => none

def LinkEvent.presented? (e : LinkEvent) : Option String :=
  match e.op with
  | .redeem _ _ token _ _ => some token
  | _ => none

namespace LinkRun

def minted (s : LinkRun) : List (String × Bool) := s.history.filterMap LinkEvent.minted?
def issued (s : LinkRun) : List (String × String) := s.history.filterMap LinkEvent.issued?
def drawn (s : LinkRun) : List String := s.history.filterMap LinkEvent.drew
def presented (s : LinkRun) : List String := s.history.filterMap LinkEvent.presented?

/-- The sessions put on file for one token, oldest first. -/
def issuedFor (s : LinkRun) (token : String) : List String :=
  (s.issued.filter (fun ts => ts.1 == token)).map Prod.snd

end LinkRun

/-- No two of the given strings share a hash. -/
def CollisionFree (hash : String → Vector UInt8 32) (tokens : List String) : Prop :=
  ∀ a ∈ tokens, ∀ b ∈ tokens, hash a = hash b → a = b

/-- What is assumed of the generator and the hash along a history. -/
structure Sound (hash : String → Vector UInt8 32) (s : LinkRun) : Prop where
  fresh : s.drawn.Nodup
  collision_free : CollisionFree hash (s.drawn ++ s.presented)

/-- SHA-256 of the tokens that the sample histories use. -/
def sampleHash (token : String) : Vector UInt8 32 :=
  if token = "AQEBAQEBAQEBAQEBAQEBAQEBAQEBAQEBAQEBAQEBAQE" then
    #v[86, 213, 250, 115, 51, 246, 215, 71, 219, 66, 194, 57, 64, 126, 93, 164,
      195, 47, 76, 121, 243, 93, 9, 43, 19, 79, 211, 90, 64, 45, 156, 92]
  else if token = "AgICAgICAgICAgICAgICAgICAgICAgICAgICAgICAgI" then
    #v[108, 29, 99, 187, 218, 180, 55, 197, 67, 104, 203, 189, 136, 134, 168, 134,
      167, 154, 217, 119, 41, 126, 38, 94, 235, 241, 245, 245, 240, 21, 51, 185]
  else
    #v[131, 190, 224, 114, 251, 211, 66, 63, 116, 129, 252, 22, 56, 33, 99, 106,
      216, 207, 183, 63, 174, 240, 221, 5, 129, 243, 151, 158, 160, 199, 49, 185]

/-- The secret of 32 bytes `b`. -/
def sampleSecret (b : UInt8) : Secret := Vector.replicate 32 b

end CtAgent.LocalAuth
