import CtAgent.Forward.Policy
import CtAgent.LocalAuth.LinkRuns

/-! The gate in front of the Origin: its two failure limiters, the credential check behind the first
and the share links behind the second. Every call reads the clock where the source does. -/
namespace CtAgent.LocalAuth
open CtAgent.Lib CtAgent.Codec CtAgent.Forward

def maxFailures : ℕ := 5
def window : ℕ := 60
def lockout : ℕ := 30

structure RateLimiter where
  failures : ℕ
  windowStart : ℕ
  lockedUntil : ℕ
  deriving DecidableEq, Repr

def RateLimiter.new : RateLimiter := ⟨0, 0, 0⟩

inductive RateLimitVerdict where
  | allowed
  | locked (retryAfter : ℕ)
  deriving DecidableEq, Repr

def RateLimiter.check (l : RateLimiter) (now : ℕ) : RateLimitVerdict :=
  if now < l.lockedUntil then .locked (l.lockedUntil - now) else .allowed

/-- A failure at `now` finds no window, or one that is too old. -/
def RateLimiter.opensWindow (l : RateLimiter) (now : ℕ) : Bool :=
  l.windowStart == 0 || decide (window < now - l.windowStart)

def RateLimiter.record (l : RateLimiter) (now : ℕ) (success : Bool) : RateLimiter :=
  if success then { l with failures := 0, windowStart := 0 }
  else if l.opensWindow now then { l with windowStart := now, failures := 1 }
  else
    let count := l.failures + 1
    { l with
      failures := count
      lockedUntil := if maxFailures ≤ count then now + lockout else l.lockedUntil }

structure StoredCredential where
  username : String
  salt : Vector UInt8 16
  hash : Vector UInt8 32
  deriving DecidableEq

/-- `links` is the content of the store's file, where there is a store. -/
structure LocalAuthGate where
  credential : Option StoredCredential
  limiter : RateLimiter
  linkLimiter : RateLimiter
  links : Option LinksFile
  deriving DecidableEq

inductive GateRejection where
  | badCredential
  | rateLimited (retryAfter : ℕ)
  deriving DecidableEq, Repr

/-- The limiter, the comparison and the record of one attempt. -/
def LocalAuthGate.attempt (g : LocalAuthGate) (checkedAt recordedAt : ℕ) (fits : StoredCredential → Bool) :
    Except GateRejection Unit × LocalAuthGate :=
  match g.limiter.check checkedAt with
  | .locked retryAfter => (.error (.rateLimited retryAfter), g)
  | .allowed =>
    let ok := (g.credential.map fits).getD false
    (if ok then .ok () else .error .badCredential, { g with limiter := g.limiter.record recordedAt ok })

/-- The request line and the headers of a request head, the names as they are written. -/
structure RequestHead where
  method : String
  target : String
  headers : List (String × String)
  deriving DecidableEq, Repr

def maxHeaderBytes : ℕ := 8 * 1024

def findSubslice (needle : Bytes) : Bytes → Option ℕ
  | [] => if needle = [] then some 0 else none
  | b :: rest => if needle <+: b :: rest then some 0 else (findSubslice needle rest).map (· + 1)

/-- `str::split` at each `\r\n`. -/
def splitCrlf : List Char → List (List Char)
  | [] => [[]]
  | '\r' :: '\n' :: rest => [] :: splitCrlf rest
  | c :: rest =>
    match splitCrlf rest with
    | line :: lines => (c :: line) :: lines
    | [] => [[c]]

def parseRequestHead (buf : Bytes) : Option RequestHead := do
  let scan := buf.take maxHeaderBytes
  let endAt ← findSubslice [13, 10, 13, 10] scan
  let head ← ofUtf8 (scan.take endAt)
  match (splitCrlf head.toList).map String.ofList with
  | [] => none
  | requestLine :: rest =>
    match (((requestLine.toList.splitOn ' ').filter (· ≠ [])).map String.ofList) with
    | method :: target :: _ =>
      some ⟨method, target, rest.filterMap (fun l => (splitOnce ':' l).map fun (n, v) => (trim n, trim v))⟩
    | _ => none

def linkQueryParam : String := "ct_link"
def linkCookieName : String := "ct_link_session"

/-- The first token in the query, and the target without the parameter. -/
def linkTokenInTarget (target : String) : Option (String × String) := do
  let (path, query) ← splitOnce '?' target
  let pairs := (query.toList.splitOn '&').map String.ofList
  let keyed := pairs.map fun pair => (pair, (splitOnce '=' pair).getD (pair, ""))
  let token ← (keyed.find? (fun p => p.2.1 == linkQueryParam)).map (fun p => p.2.2)
  let rest := (keyed.filter (fun p => p.2.1 ≠ linkQueryParam ∧ p.1 ≠ "")).map Prod.fst
  let kept := "&".intercalate rest
  some (token, if rest = [] then path else s!"{path}?{kept}")

def linkTokenInCookies (head : RequestHead) : Option String :=
  let cookies := (head.headers.filter (fun h => toAsciiLowercase h.1 == "cookie")).flatMap fun h =>
    (h.2.toList.splitOn ';').map String.ofList
  let pairs := cookies.filterMap fun c => splitOnce '=' (trim c)
  (pairs.find? (fun p => trim p.1 == linkCookieName)).map (fun p => trim p.2)

/-- The redirect back to `location`, to `/` where that is no path of this origin. -/
def http302LinkRedirect (location session : String) (maxAgeSecs : ℕ) : Bytes :=
  let sameOriginPath := location.startsWith "/" && !location.startsWith "//" && !location.startsWith "/\\"
  let controls := (utf8 location).any (fun b => b < 0x20 || b == 0x7f || b == 0x20)
  let safeLocation := if !sameOriginPath || controls then "/" else location
  let session := if looksLikeLinkToken session then session else ""
  utf8 ("\r\n".intercalate
    ["HTTP/1.1 302 Found",
      s!"Location: {safeLocation}",
      s!"Set-Cookie: {linkCookieName}={session}; Path=/; HttpOnly; Secure; SameSite=Lax; Max-Age={maxAgeSecs}",
      "Cache-Control: no-store",
      "Content-Length: 0",
      "Connection: close", "", ""])

inductive LinkGateVerdict where
  | notPresented
  | authenticated (id : String)
  | redirect (response : Bytes) (id : String)
  | rejected (why : LinkRejection)
  | rateLimited (retryAfter : ℕ)
  deriving DecidableEq, Repr

section
variable (sha256 : Bytes → Vector UInt8 32)

def hashCredential (salt : Vector UInt8 16) (password : Bytes) : Vector UInt8 32 :=
  sha256 (salt.toList ++ password)

def StoredCredential.verifyPassword (c : StoredCredential) (password : Bytes) : Bool :=
  ctEq c.hash.toList (hashCredential sha256 c.salt password).toList

def StoredCredential.verify (c : StoredCredential) (username : String) (password : Bytes) : Bool :=
  if c.username ≠ username then false else c.verifyPassword sha256 password

def LocalAuthGate.verify (g : LocalAuthGate) (checkedAt recordedAt : ℕ) (username : String)
    (password : Bytes) :
    Except GateRejection Unit × LocalAuthGate :=
  g.attempt checkedAt recordedAt (fun c => c.verify sha256 username password)

def LocalAuthGate.verifyPasswordOnly (g : LocalAuthGate) (checkedAt recordedAt : ℕ) (password : Bytes) :
    Except GateRejection Unit × LocalAuthGate :=
  g.attempt checkedAt recordedAt (fun c => c.verifyPassword sha256 password)

/-- `hash_link_token`. -/
def hashLinkToken (token : String) : Vector UInt8 32 := sha256 (utf8 token)

/-- The clock is read for `now` and by the limiter of the links; the redemption may meet a fault of the
store and draws a secret. -/
def LocalAuthGate.checkShareLinkAt (g : LocalAuthGate) (now checkedAt recordedAt : ℕ)
    (fault : Option StoreFault)
    (secret : Secret) (request : Bytes) : LinkGateVerdict × LocalAuthGate :=
  match g.links, parseRequestHead request with
  | none, _ => (.notPresented, g)
  | _, none => (.notPresented, g)
  | some file, some head =>
    let presented : Option (String × LinkPresentation × Option String) :=
      match linkTokenInTarget head.target with
      | some (token, stripped) => some (token, .query, some stripped)
      | none => (linkTokenInCookies head).map fun token => (token, .cookie, none)
    match presented with
    | none => (.notPresented, g)
    | some (token, via, strippedTarget) =>
      -- only a token in the URL is limited
      match if via = .query then g.linkLimiter.check checkedAt else .allowed with
      | .locked retryAfter => (.rateLimited retryAfter, g)
      | .allowed =>
        match redeemAt (hashLinkToken sha256) fault now token via secret file with
        | (.error e, file) =>
          let linkLimiter := if via = .query then g.linkLimiter.record recordedAt false else g.linkLimiter
          (.rejected e, { g with links := some file, linkLimiter := linkLimiter })
        | (.ok redeemed, file) =>
          let verdict := match strippedTarget, redeemed.session with
            | some location, some session =>
              .redirect (http302LinkRedirect location session redeemed.remainingSecs) redeemed.id
            | _, _ => .authenticated redeemed.id
          (verdict, { g with links := some file })

/-- A share link that is presented leaves the limiter of the passwords alone, and the credential. -/
theorem checkShareLinkAt_limiter (g : LocalAuthGate) (now checkedAt recordedAt : ℕ) (fault : Option StoreFault)
    (secret : Secret) (request : Bytes) :
    (g.checkShareLinkAt sha256 now checkedAt recordedAt fault secret request).2.limiter = g.limiter ∧
      (g.checkShareLinkAt sha256 now checkedAt recordedAt fault secret request).2.credential =
        g.credential := by
  unfold LocalAuthGate.checkShareLinkAt
  split
  · exact ⟨rfl, rfl⟩
  · exact ⟨rfl, rfl⟩
  dsimp only
  split
  · exact ⟨rfl, rfl⟩
  split
  · exact ⟨rfl, rfl⟩
  split
  · exact ⟨rfl, rfl⟩
  · exact ⟨rfl, rfl⟩

end

end CtAgent.LocalAuth
