import CtAgent.Lib.Transcript
import CtAgent.Codec
import CtAgent.Dns01Verdict

/-! One ACME order: authorise, finalise, download. What the server answers is the input, call by call;
a run leaves the transcript of its signed requests. -/
namespace CtAgent.Acme
open CtAgent.Lib

/-- `serde_json::Value` without its floats; the keys of an object are distinct. -/
inductive Json where
  | null
  | bool (b : Bool)
  | num (n : ℤ)
  | str (s : String)
  | arr (vs : List Json)
  | obj (fields : List (String × Json))

namespace Json

def get (key : String) : Json → Option Json
  | .obj fields => fields.lookup key
  | _ => none

def asStr : Json → Option String
  | .str s => some s
  | _ => none

def asArray : Json → Option (List Json)
  | .arr vs => some vs
  | _ => none

end Json

structure AcmeDirectory where
  newNonce : String
  newAccount : String
  newOrder : String
  deriving DecidableEq, Repr

structure AcmeOrder where
  status : String
  authorizations : List String
  finalize : String
  certificate : Option String
  deriving DecidableEq, Repr

def parseOrder (json : Json) : Option AcmeOrder := do
  let status ← (← json.get "status").asStr
  let authorizations ← (← json.get "authorizations").asArray
  let finalize ← (← json.get "finalize").asStr
  return ⟨status, authorizations.filterMap Json.asStr, finalize, (json.get "certificate").bind Json.asStr⟩

structure Dns01Challenge where
  token : String
  url : String
  deriving DecidableEq, Repr

def selectDns01 (authorization : Json) : Option Dns01Challenge := do
  let challenges ← (← authorization.get "challenges").asArray
  challenges.findSome? (fun c => do
    let type ← (← c.get "type").asStr
    if type ≠ "dns-01" then none
    else
      let token ← (← c.get "token").asStr
      let url ← (← c.get "url").asStr
      return ⟨token, url⟩)

structure CsrBundle where
  keyPem : String
  csrPem : String
  csrDer : Bytes
  deriving DecidableEq, Repr

structure IssuedCert where
  certChainPem : String
  keyPem : String
  deriving DecidableEq, Repr

structure HttpResponse where
  status : ℕ
  replayNonce : Option String
  location : Option String
  json : Except String Json
  text : Except String String

def HttpResponse.isSuccess (r : HttpResponse) : Bool := 200 ≤ r.status && r.status < 300

/-- What one attempt of a signed request meets. -/
structure Attempt where
  head : Except String (Option String)
  sign : Except String Unit
  send : Except String HttpResponse

structure PostAnswers where
  first : Attempt
  retry : Attempt

/-- One poll, and whether the deadline has passed behind it. -/
structure PollAnswer where
  post : PostAnswers
  late : Bool

/-- What a run meets at one authorization: the answers, and what the DNS checks come to. -/
structure AuthzAnswers where
  fetch : PostAnswers
  publish : Except String Unit
  authoritative : Option (Except Dns01.WaitError Unit)
  propagation : Option (Except String Unit)
  complete : PostAnswers
  polls : List PollAnswer

/-- What a run of `issue_once` meets; `binding` is there with external account binding. -/
structure IssueAnswers where
  binding : Option (Except String Json)
  register : PostAnswers
  csr : Except String CsrBundle
  newOrder : PostAnswers
  authz : ℕ → AuthzAnswers
  poll : List PollAnswer
  finalize : PostAnswers
  pollAgain : List PollAnswer
  download : PostAnswers

/-- The kinds of refusal, each with the values its message shows; `waiting` is none: the answers end
while the order is still polled. -/
inductive IssueError where
  | http (why : String)
  | noNonce
  | sign (why : String)
  | rejected (url : String) (body : Json)
  | registration (status : ℕ)
  | noAccountLocation
  | csr (why : String)
  | orderCreation (status : ℕ)
  | noOrderLocation
  | malformedOrder
  | malformedOrderPolling
  | fetching (url : String) (status : ℕ)
  | noDns01Challenge
  | publish (why : String)
  | authoritativeCheck (why : String)
  | propagationCheck (why : String)
  | challengeResponse (status : ℕ)
  | validationFailed (authzUrl : String) (authz : Json)
  | authzInvalid (authzUrl : String) (authz : Json)
  | authzTimeout (authzUrl : String)
  | orderTimeout (orderUrl status : String)
  | notReady (status : String)
  | finalizeFailed (status : ℕ)
  | finalizeNotValid (status : String)
  | noCertificateUrl
  | download (status : ℕ)
  | waiting

/-- A signed request that was sent and its response. -/
structure Exchange where
  url : String
  payload : Option Json
  response : HttpResponse

structure Client where
  nonce : Option String
  accountUrl : Option String
  deriving DecidableEq, Repr

abbrev AcmeRun := Talk Exchange Client IssueError

def freshNonce (a : Attempt) : AcmeRun String := do
  let c ← Talk.get
  match c.nonce with
  | some n =>
    Talk.modify (fun c => { c with nonce := none })
    return n
  | none =>
    match a.head with
    | .error why => Talk.fail (.http why)
    | .ok none => Talk.fail .noNonce
    | .ok (some n) => return n

def captureNonce (resp : HttpResponse) (c : Client) : Client :=
  match resp.replayNonce with
  | some n => { c with nonce := some n }
  | none => c

/-- One round of the loop in `post_signed`. -/
def postAttempt (url : String) (payload : Option Json) (a : Attempt) : AcmeRun HttpResponse := do
  let _ ← freshNonce a
  Talk.lift (a.sign.mapError .sign)
  let resp ← Talk.lift (a.send.mapError .http)
  Talk.say ⟨url, payload, resp⟩
  Talk.modify (captureNonce resp)
  return resp

/-- `resp.json().await.unwrap_or_default()`. -/
def errorBody (resp : HttpResponse) : Json := resp.json.toOption.getD .null

def isBadNonce (resp : HttpResponse) : Bool :=
  ((errorBody resp).get "type").bind Json.asStr == some "urn:ietf:params:acme:error:badNonce"

def postSigned (url : String) (payload : Option Json) (p : PostAnswers) : AcmeRun HttpResponse := do
  let resp ← postAttempt url payload p.first
  if resp.status = 400 then
    if isBadNonce resp then postAttempt url payload p.retry
    else Talk.fail (.rejected url (errorBody resp))
  else return resp

def postAsGet (url : String) (p : PostAnswers) : AcmeRun Json := do
  let resp ← postSigned url none p
  if resp.isSuccess then Talk.lift (resp.json.mapError .http)
  else Talk.fail (.fetching url resp.status)

def okOr {α : Type} (e : IssueError) : Option α → AcmeRun α
  | some a => pure a
  | none => Talk.fail e

def accountPayload : Option Json → Json
  | none => .obj [("termsOfServiceAgreed", .bool true)]
  | some binding => .obj [("termsOfServiceAgreed", .bool true), ("externalAccountBinding", binding)]

def accountBinding (binding : Option (Except String Json)) : AcmeRun (Option Json) :=
  match binding with
  | some b => do
    let j ← Talk.lift (b.mapError .sign)
    return some j
  | none => pure none

def registerAccount (dir : AcmeDirectory) (a : IssueAnswers) : AcmeRun Unit := do
  let binding ← accountBinding a.binding
  let resp ← postSigned dir.newAccount (some (accountPayload binding)) a.register
  if resp.isSuccess then
    let accountUrl ← okOr .noAccountLocation resp.location
    Talk.modify (fun c => { c with accountUrl := some accountUrl })
  else Talk.fail (.registration resp.status)

def orderPayload (hostname : String) : Json :=
  .obj [("identifiers", .arr [.obj [("type", .str "dns"), ("value", .str hostname)]])]

def newOrder (dir : AcmeDirectory) (hostname : String) (p : PostAnswers) : AcmeRun (String × AcmeOrder) := do
  let resp ← postSigned dir.newOrder (some (orderPayload hostname)) p
  if resp.isSuccess then
    let orderUrl ← okOr .noOrderLocation resp.location
    let json ← Talk.lift (resp.json.mapError .http)
    let order ← okOr .malformedOrder (parseOrder json)
    return (orderUrl, order)
  else Talk.fail (.orderCreation resp.status)

/-- `invalid_authz_is_dns01_race`. -/
def invalidAuthzIsDns01Race (authz : Json) : Bool :=
  (((authz.get "challenges").bind Json.asArray).getD []).any (fun c =>
    match ((c.get "error").bind (Json.get "type")).bind Json.asStr with
    | some t => ["urn:ietf:params:acme:error:dns", "urn:ietf:params:acme:error:unauthorized"].contains t
    | none => false)

def pollAuthz (authzUrl : String) : List PollAnswer → AcmeRun Unit
  | [] => Talk.fail .waiting
  | p :: rest => do
    let authz ← postAsGet authzUrl p.post
    match (authz.get "status").bind Json.asStr with
    | some "valid" => return ()
    | some "invalid" =>
      if invalidAuthzIsDns01Race authz then Talk.fail (.validationFailed authzUrl authz)
      else Talk.fail (.authzInvalid authzUrl authz)
    | _ => if p.late then Talk.fail (.authzTimeout authzUrl) else pollAuthz authzUrl rest

def completeChallenge (challengeUrl authzUrl : String) (a : AuthzAnswers) : AcmeRun Unit := do
  let resp ← postSigned challengeUrl (some (.obj [])) a.complete
  if resp.isSuccess then pollAuthz authzUrl a.polls
  else Talk.fail (.challengeResponse resp.status)

/-- The public resolvers, where they are to be asked, before the challenge is completed. -/
def confirmPublicly (challengeUrl authzUrl : String) (a : AuthzAnswers) : AcmeRun Unit :=
  match a.propagation with
  | some (.error why) => Talk.fail (.propagationCheck why)
  | some (.ok ()) | none => completeChallenge challengeUrl authzUrl a

def confirmThenComplete (challengeUrl authzUrl : String) (a : AuthzAnswers) : AcmeRun Unit :=
  match a.authoritative with
  | some (.ok ()) => completeChallenge challengeUrl authzUrl a
  | some (.error e) =>
    -- no server answered at all: the weaker check is what is left
    if contains e.toString Dns01.unreachableMarker then confirmPublicly challengeUrl authzUrl a
    else Talk.fail (.authoritativeCheck e.toString)
  | none => confirmPublicly challengeUrl authzUrl a

def validateAuthorization (authzUrl : String) (a : AuthzAnswers) : AcmeRun Unit := do
  let authz ← postAsGet authzUrl a.fetch
  let challenge ← okOr .noDns01Challenge (selectDns01 authz)
  match a.publish with
  | .ok () => confirmThenComplete challenge.url authzUrl a
  | .error why => Talk.fail (.publish why)

def validateAll (answers : ℕ → AuthzAnswers) : ℕ → List String → AcmeRun Unit
  | _, [] => return ()
  | i, url :: urls => do
    validateAuthorization url (answers i)
    validateAll answers (i + 1) urls

def pollOrder (orderUrl : String) (done : AcmeOrder → Bool) : List PollAnswer → AcmeRun AcmeOrder
  | [] => Talk.fail .waiting
  | p :: rest => do
    let json ← postAsGet orderUrl p.post
    let order ← okOr .malformedOrderPolling (parseOrder json)
    if done order then return order
    else if p.late then Talk.fail (.orderTimeout orderUrl order.status)
    else pollOrder orderUrl done rest

def csrPayload (csr : CsrBundle) : Json := .obj [("csr", .str (Codec.base64url csr.csrDer))]

def finalize (finalizeUrl : String) (csr : CsrBundle) (p : PostAnswers) : AcmeRun Unit := do
  let resp ← postSigned finalizeUrl (some (csrPayload csr)) p
  if resp.isSuccess then return () else Talk.fail (.finalizeFailed resp.status)

def downloadCertificate (certUrl : String) (p : PostAnswers) : AcmeRun String := do
  let resp ← postSigned certUrl none p
  if resp.isSuccess then Talk.lift (resp.text.mapError .http) else Talk.fail (.download resp.status)

def settled (o : AcmeOrder) : Bool := o.status != "pending" && o.status != "processing"

def ensureAccount (dir : AcmeDirectory) (a : IssueAnswers) : AcmeRun Unit := do
  let c ← Talk.get
  if c.accountUrl = none then registerAccount dir a else return ()

def finalizeIfReady (orderUrl : String) (order : AcmeOrder) (csr : CsrBundle) (a : IssueAnswers) :
    AcmeRun AcmeOrder :=
  if order.status = "ready" then do
    finalize order.finalize csr a.finalize
    pollOrder orderUrl (fun o => o.status == "valid" || o.status == "invalid") a.pollAgain
  -- an order that is valid already goes straight to its certificate
  else pure order

/-- `issue_once`. -/
def issueOnce (dir : AcmeDirectory) (hostname : String) (a : IssueAnswers) : AcmeRun IssuedCert := do
  ensureAccount dir a
  let csr ← Talk.lift (a.csr.mapError .csr)
  let (orderUrl, order) ← newOrder dir hostname a.newOrder
  validateAll a.authz 0 order.authorizations
  let order ← pollOrder orderUrl settled a.poll
  if order.status ≠ "ready" ∧ order.status ≠ "processing" ∧ order.status ≠ "valid" then
    Talk.fail (.notReady order.status)
  else
    let order ← finalizeIfReady orderUrl order csr a
    if order.status ≠ "valid" then Talk.fail (.finalizeNotValid order.status)
    else
      let certUrl ← okOr .noCertificateUrl order.certificate
      let certChainPem ← downloadCertificate certUrl a.download
      return ⟨certChainPem, csr.keyPem⟩

end CtAgent.Acme
