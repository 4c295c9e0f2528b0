import CtAgent.Lib.Text

/-! `ct-agent login` and the stored credential it leaves: the device-grant poll, the refresh, and how a
bearer is resolved (login.rs). Durations are nanoseconds, instants Unix seconds. -/
namespace CtAgent.Login
open CtAgent.Lib

def accessTokenExpirySkewSecs : ℕ := 30

structure TokenResponse where
  accessToken : String
  refreshToken : Option String
  expiresIn : Option ℕ
  refreshExpiresIn : Option ℕ
  deriving DecidableEq, Repr

structure TokenErrorResponse where
  error : String := "unknown_error"
  errorDescription : Option String := none
  deriving DecidableEq, Repr

inductive LoginError
  | expiredToken
  | accessDenied
  | http (m : String)
  | other (m : String)
  deriving DecidableEq, Repr

def LoginError.display : LoginError → String
  | .expiredToken => "expired_token"
  | .accessDenied => "access_denied"
  | .http m | .other m => m

structure StatusCode where
  code : ℕ
  display : String
  deriving DecidableEq, Repr

def StatusCode.isSuccess (s : StatusCode) : Bool := 200 ≤ s.code && s.code < 300

def StatusCode.isServerError (s : StatusCode) : Bool := 500 ≤ s.code && s.code < 600

/-- What a `POST` to the token endpoint came to: no answer, or a status and what the body is as a token
and as an error. -/
inductive TokenAnswer
  | failed (e : String)
  | answered (status : StatusCode) (token : Except String TokenResponse)
    (error : Except String TokenErrorResponse)

/-- What one answer means to the poll loop. -/
inductive Polled
  | pending
  | slowDown
  | ended (r : Except LoginError TokenResponse)

def polled : TokenAnswer → Polled
  | .failed e => .ended (.error (.http e))
  | .answered status token error =>
    if status.isSuccess then .ended (token.mapError .http)
    else
      let body := error.toOption.getD {}
      if body.error = "authorization_pending" then .pending
      else if body.error = "slow_down" then .slowDown
      else if body.error = "expired_token" then .ended (.error .expiredToken)
      else if body.error = "access_denied" then .ended (.error .accessDenied)
      else .ended (.error (.other (body.errorDescription.getD body.error)))

/-- One turn of the poll: what the sleep took beyond its interval, what the request took, the answer. -/
structure Poll where
  overslept : ℕ
  took : ℕ
  answer : TokenAnswer

/-- `poll_for_token_with_backoff` from its `k`-th turn on: the outcome, and when its requests went out. -/
def pollForTokenWithBackoff (polls : ℕ → Poll) (expiresIn backoff : ℕ) :
    ℕ → ℕ → ℕ → ℕ → Option (Except LoginError TokenResponse × List ℕ)
  | 0, _, _, _ => none
  | fuel+1, k, elapsed, interval =>
    if expiresIn ≤ elapsed then some (.error .expiredToken, [])
    else
      let sent := elapsed + interval + (polls k).overslept
      let answered := sent + (polls k).took
      match polled (polls k).answer with
      | .ended r => some (r, [sent])
      | .pending => (pollForTokenWithBackoff polls expiresIn backoff fuel (k+1) answered interval).map
          (fun r => (r.1, sent :: r.2))
      | .slowDown => (pollForTokenWithBackoff polls expiresIn backoff fuel (k+1) answered
          (interval + backoff)).map
          (fun r => (r.1, sent :: r.2))

/-- `refresh_access_token`: only an error the IdP pronounced is `other`. -/
def refreshAccessToken : TokenAnswer → Except LoginError TokenResponse
  | .failed e => .error (.http e)
  | .answered status token error =>
    if status.isServerError then .error (.http ("token endpoint answered " ++ status.display))
    else if !status.isSuccess then
      match error with
      | .error e =>
        .error (.http ("token endpoint answered " ++ status.display ++ " with an unparseable body: " ++ e))
      | .ok body => .error (.other (body.errorDescription.getD body.error))
    else token.mapError .http

structure StoredToken where
  accessToken : String
  refreshToken : Option String
  accessExpiresAt : Option ℕ
  refreshExpiresAt : Option ℕ
  issuer : String
  clientId : String
  deriving DecidableEq, Repr

namespace StoredToken

/-- The expiries are sums of two `u64`, which wrap. -/
def fromTokenResponse (tok : TokenResponse) (issuer clientId : String) (now : ℕ) : StoredToken where
  accessToken := tok.accessToken
  refreshToken := tok.refreshToken
  accessExpiresAt := tok.expiresIn.map (fun secs => (now + secs) % 2^64)
  refreshExpiresAt := tok.refreshExpiresIn.map (fun secs => (now + secs) % 2^64)
  issuer := issuer
  clientId := clientId

/-- An answer may leave the refresh token out, and the stored one stays. -/
def afterRefresh (s : StoredToken) (tok : TokenResponse) (now : ℕ) : StoredToken :=
  let next := fromTokenResponse tok s.issuer s.clientId now
  if next.refreshToken.all (· == "") then
    { next with refreshToken := s.refreshToken, refreshExpiresAt := s.refreshExpiresAt }
  else next

/-- An unknown expiry is stale. -/
def isStale (s : StoredToken) (now : ℕ) : Bool :=
  match s.accessExpiresAt with
  | some exp => exp ≤ now + accessTokenExpirySkewSecs
  | none => true

def usableRefreshToken (s : StoredToken) (now : ℕ) : Option String :=
  (s.refreshToken.filter (· != "")).filter (fun _ => s.refreshExpiresAt.all (now < ·))

end StoredToken

/-- The environment. -/
abbrev Lookup := String → Option String

/-- A value that is set and not blank. -/
def nonBlank (f : Lookup) (key : String) : Option String := (f key).filter (fun s => trim s != "")

/-- `PathBuf::join` of a relative name. -/
def pathJoin (dir name : String) : String :=
  if dir.toList.getLast? = some '/' then dir ++ name else dir ++ "/" ++ name

def tokenStorePath (f : Lookup) : Except String String :=
  match nonBlank f "CT_AGENT_LOGIN_TOKEN_FILE" with
  | some p => .ok p
  | none =>
    match nonBlank f "CT_AGENT_STATE_DIR" with
    | some dir => .ok (pathJoin dir "oidc-token.json")
    | none =>
      match nonBlank f "HOME" with
      | some home => .ok (pathJoin (pathJoin home ".ct-agent") "oidc-token.json")
      | none =>
        .error ("cannot determine where to store the login token: set CT_AGENT_LOGIN_TOKEN_FILE " ++
          "(an explicit file path), CT_AGENT_STATE_DIR (a persistent state directory), or HOME")

inductive OidcCredentialState
  | env
  | storedFresh
  | storedExpiredRefreshable
  | storedExpiredNoRefresh
  | none
  deriving DecidableEq, Repr

/-- What is read from the disk: a text file, and the stored login. -/
structure Disk where
  readToString : String → Except String String
  readStoredToken : String → Except String StoredToken

def envToken (f : Lookup) : Option String := nonBlank f "CT_OIDC_TOKEN"

def tokenFromFile (f : Lookup) (disk : Disk) : Except String (Option String) :=
  match ((f "CT_OIDC_TOKEN_FILE").map trim).filter (· != "") with
  | none => .ok none
  | some path =>
    match disk.readToString path with
    | .error e => .error ("CT_OIDC_TOKEN_FILE=" ++ path ++ " could not be read: " ++ e)
    | .ok raw => .ok (if trim raw = "" then none else some (trim raw))

def oidcCredentialStateFrom (f : Lookup) (disk : Disk) (now : ℕ) : OidcCredentialState :=
  if (envToken f).isSome then .env
  else
    match tokenFromFile f disk with
    | .ok (some _) => .env
    | _ =>
      match tokenStorePath f with
      | .error _ => .none
      | .ok path =>
        match disk.readStoredToken path with
        | .error _ => .none
        | .ok stored =>
          if !stored.isStale now then .storedFresh
          else if (stored.usableRefreshToken now).isSome then .storedExpiredRefreshable
          else .storedExpiredNoRefresh

def unattendedHint : String := "or provide a long-lived credential via CT_OIDC_TOKEN_FILE"

inductive ResolveError
  | definitive (m : String)
  | transient (m : String)
  deriving DecidableEq, Repr

/-- A resolve in front of the lock: finished, or on its way to the stored login. -/
inductive Begun
  | finished (r : Except ResolveError String)
  | locking (path : String)

def resolveBegin (f : Lookup) (disk : Disk) : Begun :=
  match envToken f with
  | some t => .finished (.ok t)
  | none =>
    match tokenFromFile f disk with
    | .ok (some t) => .finished (.ok t)
    -- a rotation in progress
    | .error e => .finished (.error (.transient e))
    | .ok none =>
      match tokenStorePath f with
      | .error e => .finished (.error (.definitive e))
      | .ok path => .locking path

/-- A resolve under the lock, up to its request. `degraded`: the line of `note_degraded` was due. -/
inductive Locked
  | finished (r : Except ResolveError String) (degraded : Bool)
  | refreshing (stored : StoredToken) (refreshToken : String)

def resolveLocked (path : String) (read : Except String StoredToken) (now : ℕ) : Locked :=
  match read with
  | .error e =>
    .finished (.error (.definitive ("CT_OIDC_TOKEN is not set and no stored login was found at " ++
      path ++ " (" ++ e ++
      "). Run `ct-agent login`, " ++ unattendedHint ++ "."))) false
  | .ok stored =>
    if !stored.isStale now then .finished (.ok stored.accessToken) false
    else
      match stored.usableRefreshToken now with
      | some refreshToken => .refreshing stored refreshToken
      | none =>
        let why := if stored.refreshToken.any (· != "") then "its refresh token has expired too"
          else "no refresh token is available"
        .finished (.error (.definitive ("the stored login has expired and " ++ why ++
          ". Run `ct-agent login` again, " ++
          unattendedHint ++ "."))) true

/-- A resolve behind the answer to its request: its result, the login it saved, and `degraded`. `now` is the
clock from before the request, `persist` what writing the store came to. -/
def resolveAnswered (path : String) (stored : StoredToken) (now : ℕ) (answer : TokenAnswer)
    (persist : Except String Unit) : Except ResolveError String × Option StoredToken × Bool :=
  match refreshAccessToken answer with
  | .error (.http m) =>
    (.error (.transient ("the stored login has expired and refreshing it failed with a transient error (" ++
      m ++
      "); the IdP may be unreachable")), none, false)
  | .error e =>
    (.error (.definitive ("the stored login has expired and the IdP rejected the refresh (" ++ e.display ++
      "). Run `ct-agent login` again, " ++ unattendedHint ++ ".")), none, true)
  | .ok refreshed =>
    let newStored := stored.afterRefresh refreshed now
    match persist with
    | .error e =>
      (.error (.definitive ("refreshed the login but failed to save it at " ++ path ++ ": " ++ e)), none,
        false)
    | .ok () => (.ok newStored.accessToken, some newStored, false)

def oidcRefreshRetryMax : ℕ := 5 * 10^9

/-- The turns of `resolve_oidc_token_with_retry` from `attempt` (counted from 0) on: the result and the
sleeps. -/
def retryFrom (results : ℕ → Except ResolveError String) (attempts : ℕ) :
    ℕ → ℕ → ℕ → String → Except String String × List ℕ
  | 0, _, _, last =>
    (.error (last ++ " -- gave up after " ++ toString attempts ++
      " attempt(s). The stored login itself is still refreshable; this is an IdP/network problem, not a " ++
      "re-login problem"), [])
  | remaining+1, attempt, delay, _ =>
    match results attempt with
    | .ok t => (.ok t, [])
    | .error (.definitive m) => (.error m, [])
    | .error (.transient m) =>
      if attempt + 1 < attempts then
        let r := retryFrom results attempts remaining (attempt+1) (min (delay * 2) oidcRefreshRetryMax) m
        (r.1, delay :: r.2)
      else retryFrom results attempts remaining (attempt+1) delay m

def resolveOidcTokenWithRetry (results : ℕ → Except ResolveError String) (attempts base : ℕ) :
    Except String String × List ℕ :=
  let attempts := max attempts 1
  retryFrom results attempts attempts 0 base ""

end CtAgent.Login
