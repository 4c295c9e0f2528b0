import CtAgent.Codec
import CtAgent.SecretFile

/-! The share-link store. Each operation reads the whole list, changes it and writes it back;
`mintOn`, `revokeOn` and `redeemOn` are what happens to the list in between. The token hash is a
parameter, and so are the random bytes an operation draws. -/
namespace CtAgent.LocalAuth
open CtAgent.Lib CtAgent.Codec CtAgent.SecretFile

def maxActiveLinks : ℕ := 50
def linkPruneAfter : ℕ := 7 * 86400
def maxSessionsPerLink : ℕ := 16
def maxLabelChars : ℕ := 64

/-- `u64::saturating_add`. -/
def saturatingAdd (a b : ℕ) : ℕ := min (a + b) (2^64 - 1)

structure ShareLink where
  id : String
  tokenHash : String
  label : String
  expiresAt : ℕ
  singleUse : Bool
  usedAt : Option ℕ
  sessionHashes : List String
  revokedAt : Option ℕ
  deriving DecidableEq, Repr

def ShareLink.isActive (l : ShareLink) (now : ℕ) : Bool :=
  l.revokedAt.isNone && decide (now < l.expiresAt)

/-- Not empty, at most 128 bytes, all of them of the base64url alphabet. -/
def looksLikeLinkToken (s : String) : Bool :=
  !s.toList.isEmpty && decide (strLen s ≤ 128) && s.toList.all isTokenChar

def sanitizeLabel (label : String) : String :=
  trim (String.ofList ((label.toList.filter (fun c => !isControl c)).take maxLabelChars))

inductive LinkPresentation where
  | query | cookie
  deriving DecidableEq, Repr

inductive LinkRejection where
  | unknown | expired | revoked | alreadyUsed | store
  deriving DecidableEq, Repr

structure RedeemedLink where
  id : String
  label : String
  singleUse : Bool
  remainingSecs : ℕ
  firstUse : Bool
  session : Option String
  deriving DecidableEq, Repr

structure MintedLink where
  id : String
  token : String
  label : String
  expiresAt : ℕ
  singleUse : Bool
  deriving DecidableEq, Repr

/-- The random bytes of a token or of a session secret, and of a link id. -/
abbrev Secret := Vector UInt8 32
abbrev IdBytes := Vector UInt8 6

def secretToken (secret : Secret) : String := base64url secret.toList

/-- The pruning of every save: a link stays on file for `linkPruneAfter` past its expiry. -/
def prune (now : ℕ) (links : List ShareLink) : List ShareLink :=
  links.filter (fun l => decide (now < saturatingAdd l.expiresAt linkPruneAfter))

section
variable (hash : String → Vector UInt8 32)

/-- A token as it is stored: the hex of its hash. -/
def storedHash (token : String) : String := hexEncode (hash token).toList

/-- Whether a stored hash is the hash of the presented token. -/
def hashMatches (token stored : String) : Bool :=
  match hexDecode 32 stored with
  | some h => ctEq h (hash token).toList
  | none => false

def mintOn (now ttl : ℕ) (singleUse : Bool) (label : String) (secret : Secret) (idBytes : IdBytes)
    (links : List ShareLink) : Except String (MintedLink × List ShareLink) :=
  let active := (links.filter (fun l => l.isActive now)).length
  if maxActiveLinks ≤ active then
    -- only the active links count against the cap
    .error (s!"{active} share links are already active (the cap is {maxActiveLinks}) -- revoke one with " ++
      "`ct-agent local-auth link-revoke <id>` first")
  else
    let token := secretToken secret
    let id := hexEncode idBytes.toList
    let link : ShareLink :=
      ⟨id, storedHash hash token, sanitizeLabel label, saturatingAdd now ttl, singleUse, none, [], none⟩
    .ok (⟨id, token, link.label, link.expiresAt, singleUse⟩, links ++ [link])

/-- Change the first element that satisfies `p`, as `iter_mut().find(..)` does. -/
def modifyFirst {α : Type*} (p : α → Bool) (f : α → α) : List α → List α
  | [] => []
  | x :: xs => if p x then f x :: xs else x :: modifyFirst p f xs

def revokeOn (now : ℕ) (id : String) (links : List ShareLink) :
    Except String (ShareLink × List ShareLink) :=
  match links.find? (fun l => l.id == id) with
  | none => .error s!"no share link with id {id}"
  | some link =>
    if link.revokedAt.isSome then .error s!"share link {id} is already revoked"
    else
      let revoked := { link with revokedAt := some now }
      .ok (revoked, modifyFirst (fun l => l.id == id) (fun _ => revoked) links)

/-- Which record a presented token or cookie selects. -/
def selects (token : String) (via : LinkPresentation) (l : ShareLink) : Bool :=
  match via with
  | .query => hashMatches hash token l.tokenHash
  | .cookie => l.sessionHashes.any (hashMatches hash token)

/-- The record after a redemption through the URL: stamped on first use, one session more, the
oldest sessions dropped past the limit. -/
def stampRedeemed (now : ℕ) (session : String) (l : ShareLink) : ShareLink :=
  let hashes := l.sessionHashes ++ [storedHash hash session]
  { l with
    usedAt := if l.usedAt.isNone then some now else l.usedAt
    sessionHashes := hashes.drop (hashes.length - maxSessionsPerLink) }

def redeemOn (now : ℕ) (token : String) (via : LinkPresentation) (secret : Secret)
    (links : List ShareLink) : Except LinkRejection (RedeemedLink × List ShareLink) :=
  match links.find? (selects hash token via) with
  | none => .error .unknown
  | some link =>
    if link.revokedAt.isSome then .error .revoked
    else if link.expiresAt ≤ now then .error .expired
    else
      match via with
      | .query =>
        -- a single use is spent by its first query; its cookie goes on
        if link.singleUse && link.usedAt.isSome then .error .alreadyUsed
        else
          let session := secretToken secret
          .ok (⟨link.id, link.label, link.singleUse, link.expiresAt - now, link.usedAt.isNone, some session⟩,
            modifyFirst (selects hash token .query) (stampRedeemed hash now session) links)
      | .cookie =>
        .ok (⟨link.id, link.label, link.singleUse, link.expiresAt - now, false, none⟩, links)

end

/-- What can go wrong around the list: reading it, preparing the directory, encoding it, or a step
of the write. -/
inductive StoreFault where
  | load | createDir | encode | write (step : WriteStep)
  deriving DecidableEq, Repr

/-- The file's list; a missing file is an empty one. -/
abbrev LinksFile := Option (List ShareLink)

def load (fault : Option StoreFault) (file : LinksFile) : Option (List ShareLink) :=
  if fault = some .load then none else some (file.getD [])

/-- Prune and write. The second component is the file afterwards. -/
def save (fault : Option StoreFault) (now : ℕ) (links : List ShareLink) (file : LinksFile) :
    Bool × LinksFile :=
  match fault with
  | some .createDir | some .encode => (false, file)
  | some (.write step) =>
    match writePrivate (some step) file (some (prune now links)) with
    | (.ok (), f) => (true, f)
    | (.error _, f) => (false, f)
  -- a fault of the load does not concern the save
  | some .load | none => (true, some (prune now links))

end CtAgent.LocalAuth
