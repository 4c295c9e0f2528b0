import CtAgent.AcmeIssued
import CtAgent.Lib.Substring
import CtAgent.ServiceCalls

/-! Whole orders one after the other: which failures ask for a fresh order, as the message tells. -/
namespace CtAgent.Acme
open CtAgent.Lib CtAgent.Lib.Talk

namespace Json

/-- A string of a JSON text. -/
def quote (s : String) : List Char := '"' :: (ServiceCalls.escape s ++ ['"'])

mutual

/-- The compact text of a value. -/
def print : Json → List Char
  | .null => "null".toList
  | .bool true => "true".toList
  | .bool false => "false".toList
  | .num n => (toString n).toList
  | .str s => quote s
  | .arr vs => '[' :: (printAll vs ++ [']'])
  | .obj fields => '\x7b' :: (printFields fields ++ ['\x7d'])

def printAll : List Json → List Char
  | [] => []
  | [v] => print v
  | v :: w :: vs => print v ++ ',' :: printAll (w :: vs)

def printField : String × Json → List Char
  | (key, v) => quote key ++ ':' :: print v

def printFields : List (String × Json) → List Char
  | [] => []
  | [f] => printField f
  | f :: g :: fs => printField f ++ ',' :: printFields (g :: fs)

end

def display (j : Json) : String := String.ofList j.print

end Json

example : (Json.obj [("type", .str "x\"y"), ("n", .arr [.num 1, .null])]).display =
    "\x7b\"type\":\"x\\\"y\",\"n\":[1,null]\x7d" := by
  decide

/-- `DNS01_VALIDATION_FAILED`. -/
def dns01ValidationFailed : String := "DNS-01 validation failed"

def dns01Markers : List String :=
  ["DNS-01 authoritative check failed", "DNS-01 propagation check failed",
    "publishing the DNS-01 challenge record failed", dns01ValidationFailed]

/-- `is_dns01_failure`, on the message of an error. -/
def isDns01Failure (message : String) : Bool := dns01Markers.any (contains message)

section
variable (reason : ℕ → String)

/-- A status as it is displayed. -/
def statusText (status : ℕ) : String :=
  let phrase := reason status
  s!"{status} {phrase}"

/-- What a refusal says. -/
def IssueError.message : IssueError → String
  | .http why => why
  | .noNonce => "ACME server sent no Replay-Nonce"
  | .sign why => why
  | .rejected url body =>
    let text := body.display
    s!"ACME request to {url} failed: {text}"
  | .registration status =>
    let text := statusText reason status
    s!"account registration failed: {text}"
  | .noAccountLocation => "ACME server sent no account Location"
  | .csr why => why
  | .orderCreation status =>
    let text := statusText reason status
    s!"order creation failed: {text}"
  | .noOrderLocation => "ACME server sent no order Location"
  | .malformedOrder => "malformed ACME order"
  | .malformedOrderPolling => "malformed ACME order while polling"
  | .fetching url status =>
    let text := statusText reason status
    s!"fetching {url} failed: {text}"
  | .noDns01Challenge => "ACME server offered no dns-01 challenge for this authorization"
  | .publish why => s!"publishing the DNS-01 challenge record failed: {why}"
  | .authoritativeCheck why => s!"DNS-01 authoritative check failed: {why}"
  | .propagationCheck why => s!"DNS-01 propagation check failed: {why}"
  | .challengeResponse status =>
    let text := statusText reason status
    s!"challenge response failed: {text}"
  | .validationFailed authzUrl authz =>
    let text := authz.display
    s!"authorization {authzUrl} became invalid ({dns01ValidationFailed}): {text}"
  | .authzInvalid authzUrl authz =>
    let text := authz.display
    s!"authorization {authzUrl} became invalid: {text}"
  | .authzTimeout authzUrl => s!"authorization {authzUrl} did not validate within 120s"
  | .orderTimeout orderUrl status => s!"order {orderUrl} did not settle within 120s (status={status})"
  | .notReady status => s!"order did not reach ready (status={status})"
  | .finalizeFailed status =>
    let text := statusText reason status
    s!"finalize failed: {text}"
  | .finalizeNotValid status => s!"order finalize did not reach valid (status={status})"
  | .noCertificateUrl => "order valid but carries no certificate URL"
  | .download status =>
    let text := statusText reason status
    s!"certificate download failed: {text}"
  -- the order is still polled: no message yet
  | .waiting => ""

/-- The failures that a fresh order may mend. -/
def IssueError.isDns01Race : IssueError → Bool
  | .publish _ | .authoritativeCheck _ | .propagationCheck _ => true
  | .validationFailed _ authz => invalidAuthzIsDns01Race authz
  | _ => false

/-- The marker is there with its reason. -/
def IssueError.Explained : IssueError → Prop
  | .validationFailed _ authz => invalidAuthzIsDns01Race authz = true
  | _ => True

/-- What the message of another failure shows of the answers and of foreign errors. A URL in front of
` failed` stands with that word. -/
def IssueError.shown : IssueError → List String
  | .http why | .sign why | .csr why => [why]
  | .rejected url body => [url ++ " failed", body.display]
  | .registration status | .orderCreation status | .challengeResponse status | .finalizeFailed status
  | .download status => [statusText reason status]
  | .fetching url status => [url ++ " failed", statusText reason status]
  | .authzInvalid authzUrl authz => [authzUrl, authz.display]
  | .authzTimeout authzUrl => [authzUrl]
  | .orderTimeout orderUrl status => [orderUrl, status]
  | .notReady status | .finalizeNotValid status => [status]
  | _ => []

end

/-- A marker in a text. -/
def marked (cs : List Char) : Bool := dns01Markers.any (fun w => decide (w.toList <:+: cs))

section
variable {l r : List Char} {c : Char}

/-- A piece in front that neither has a marker nor ends in the beginning of one. -/
def clearInFront (l : List Char) : Bool :=
  dns01Markers.all (fun w => decide (EndsClear w.toList l ∧ ¬ w.toList <:+: l))

def clearBehind (r : List Char) : Bool :=
  dns01Markers.all (fun w => decide (EndsClear w.toList.reverse r.reverse ∧ ¬ w.toList <:+: r))

theorem mem_clear {p : String → Prop} [DecidablePred p] (h : dns01Markers.all (fun w => decide (p w)) = true) :
    ∀ w ∈ dns01Markers, p w := fun w hw => of_decide_eq_true (List.all_eq_true.mp h w hw)

theorem marked_iff {cs : List Char} : marked cs = true ↔ ∃ w ∈ dns01Markers, w.toList <:+: cs := by
  unfold marked
  rw [List.any_eq_true]
  simp only [decide_eq_true_eq]

theorem marked_append_left (h : clearInFront l = true) : marked (l ++ r) = marked r := by
  rw [Bool.eq_iff_iff, marked_iff, marked_iff]
  apply exists_congr
  intro w
  apply and_congr_right
  intro hw
  obtain ⟨hclear, hnot⟩ := mem_clear h w hw
  rw [infix_append_of_endsClear hclear]
  exact or_iff_right hnot

theorem marked_append_right (h : clearBehind r = true) : marked (l ++ r) = marked l := by
  rw [Bool.eq_iff_iff, marked_iff, marked_iff]
  apply exists_congr
  intro w
  apply and_congr_right
  intro hw
  obtain ⟨hclear, hnot⟩ := mem_clear h w hw
  rw [infix_append_of_beginsClear hclear]
  exact or_iff_left hnot

/-- A character of no marker cuts a text in two. -/
theorem marked_append_cons (h : dns01Markers.all (fun w => decide (c ∉ w.toList)) = true) :
    marked (l ++ c :: r) = (marked l || marked r) := by
  rw [Bool.eq_iff_iff, Bool.or_eq_true, marked_iff, marked_iff, marked_iff, ← exists_or]
  apply exists_congr
  intro w
  rw [← and_or_left]
  apply and_congr_right
  intro hw
  exact infix_append_cons_of_notMem (mem_clear h w hw)

theorem marked_of_infix {w : String} (hw : w ∈ dns01Markers) {cs : List Char} (h : w.toList <:+: cs) :
    marked cs = true :=
  marked_iff.mpr ⟨w, hw, h⟩

end

/-- What messages begin with in front of what they show. -/
def fixedFronts : List String :=
  ["account registration failed: ", "order creation failed: ", "challenge response failed: ",
    "finalize failed: ",
    "certificate download failed: ", "ACME request to ", "fetching ", "authorization ", "order ",
    "order did not reach ready (status=", "order finalize did not reach valid (status=", " ", "status="]

def fixedEnds : List String :=
  [")", " did not validate within 120s", " did not settle within 120s ", " became invalid"]

/-- The messages that show nothing. -/
def fixedMessages : List String :=
  ["ACME server sent no Replay-Nonce", "ACME server sent no account Location",
    "ACME server sent no order Location",
    "malformed ACME order", "malformed ACME order while polling",
    "ACME server offered no dns-01 challenge for this authorization",
      "order valid but carries no certificate URL", ""]

theorem fixedFronts_clear : fixedFronts.all (fun l => clearInFront l.toList) = true := by decide +kernel

theorem fixedEnds_clear : fixedEnds.all (fun r => clearBehind r.toList) = true := by decide +kernel

theorem fixedMessages_clear : fixedMessages.all (fun m => !marked m.toList) = true := by decide +kernel

theorem separators_clear : [':', '('].all (fun c => dns01Markers.all (fun w => decide (c ∉ w.toList))) =
    true := by
  decide +kernel

section
variable {front behind : String}

theorem isDns01Failure_fixed {m : String} (h : m ∈ fixedMessages) : isDns01Failure m = false := by
  have hclear := List.all_eq_true.mp fixedMessages_clear m h
  rw [Bool.not_eq_true'] at hclear
  exact hclear

theorem isDns01Failure_front (h : front ∈ fixedFronts) (x : String) :
    isDns01Failure (front ++ x) = isDns01Failure x := by
  change marked (front ++ x).toList = marked x.toList
  rw [String.toList_append, marked_append_left (List.all_eq_true.mp fixedFronts_clear front h)]

theorem isDns01Failure_end (h : behind ∈ fixedEnds) (x : String) :
    isDns01Failure (x ++ behind) = isDns01Failure x := by
  change marked (x ++ behind).toList = marked x.toList
  rw [String.toList_append, marked_append_right (List.all_eq_true.mp fixedEnds_clear behind h)]

/-- A colon or a bracket between two texts. -/
theorem isDns01Failure_cut {c : Char} (hc : c ∈ [':', '('])
    {mid rest : String} (hmid : mid.toList = c :: rest.toList)
    (x y : String) : isDns01Failure (x ++ mid ++ y) = (isDns01Failure x || isDns01Failure (rest ++ y)) := by
  change marked (x ++ mid ++ y).toList = (marked x.toList || marked (rest ++ y).toList)
  rw [String.toList_append, String.toList_append, hmid, List.append_assoc, List.cons_append,
    marked_append_cons (List.all_eq_true.mp separators_clear c hc), String.toList_append]

theorem isDns01Failure_of_marker {w : String} (hw : w ∈ dns01Markers) (x y : String) :
    isDns01Failure (x ++ w ++ y) = true :=
  marked_of_infix hw ⟨x.toList, y.toList, by rw [String.toList_append, String.toList_append]⟩

/-- Two shown texts with a colon between them. -/
theorem isDns01Failure_colon (h : front ∈ fixedFronts) (x y : String) :
    isDns01Failure (front ++ x ++ ": " ++ y) = (isDns01Failure x || isDns01Failure y) := by
  have hmid : ": ".toList = ':' :: " ".toList := rfl
  rw [isDns01Failure_cut (by simp) hmid, isDns01Failure_front h, isDns01Failure_front (by simp [fixedFronts])]

theorem isDns01Failure_failed (h : front ∈ fixedFronts) (url back : String) :
    isDns01Failure (front ++ url ++ " failed: " ++ back) =
      (isDns01Failure (url ++ " failed") || isDns01Failure back) := by
  have hmid : " failed: " = " failed" ++ ": " := rfl
  rw [hmid, ← isDns01Failure_colon h]
  simp only [String.append_assoc]

theorem isDns01Failure_invalid (url authz : String) :
    isDns01Failure ("authorization " ++ url ++ " became invalid: " ++ authz) =
      (isDns01Failure url || isDns01Failure authz) := by
  have hmid : " became invalid: " = " became invalid" ++ ": " := rfl
  have hinvalid : " became invalid" ∈ fixedEnds := by simp [fixedEnds]
  have hend := isDns01Failure_end hinvalid url
  have hfront : "authorization " ∈ fixedFronts := by simp [fixedFronts]
  rw [hmid, ← hend, ← isDns01Failure_colon hfront]
  simp only [String.append_assoc]

theorem isDns01Failure_settle (url status : String) :
    isDns01Failure ("order " ++ url ++ " did not settle within 120s (status=" ++ status ++ ")") =
      (isDns01Failure url || isDns01Failure status) := by
  have hmid : " did not settle within 120s (status=" = " did not settle within 120s " ++ "(status=" := rfl
  have hopen : "(status=".toList = '(' :: "status=".toList := rfl
  have hurl : isDns01Failure ("order " ++ (url ++ " did not settle within 120s ")) = isDns01Failure url := by
    rw [isDns01Failure_front (by simp [fixedFronts]), isDns01Failure_end (by simp [fixedEnds])]
  have hstatus : isDns01Failure ("status=" ++ (status ++ ")")) = isDns01Failure status := by
    rw [isDns01Failure_front (by simp [fixedFronts]), isDns01Failure_end (by simp [fixedEnds])]
  rw [← hurl, ← hstatus, ← isDns01Failure_cut (by simp) hopen, hmid]
  simp only [String.append_assoc]

end

section
variable (reason : ℕ → String)

/-- A message asks for a fresh order where it is of such a failure, or where something it shows has a
marker in it. -/
theorem isDns01Failure_message {e : IssueError} (he : e.Explained) :
    isDns01Failure (e.message reason) = (e.isDns01Race || (e.shown reason).any isDns01Failure) := by
  have hone (x : String) : ([x].any isDns01Failure) = isDns01Failure x := Bool.or_false _
  have htwo (x y : String) : ([x, y].any isDns01Failure) = (isDns01Failure x || isDns01Failure y) :=
    congrArg (isDns01Failure x || ·) (Bool.or_false _)
  have hstatus (front : String) (h : front ∈ fixedFronts) (status : ℕ) :
      isDns01Failure (front ++ statusText reason status) = ([statusText reason status].any isDns01Failure) :=
    (isDns01Failure_front h _).trans (hone _).symm
  have hbracket (front : String) (h : front ∈ fixedFronts) (x : String) :
      isDns01Failure (front ++ x ++ ")") = ([x].any isDns01Failure) :=
    ((isDns01Failure_end (by simp [fixedEnds]) (front ++ x)).trans (isDns01Failure_front h x)).trans
    (hone x).symm
  have hrace (w front why : String) (hw : w ∈ dns01Markers) (hfront : front = w ++ ": ") :
      isDns01Failure (front ++ why) = true := by
    have hmarked := isDns01Failure_of_marker hw "" (": " ++ why)
    rw [String.empty_append, ← String.append_assoc, ← hfront] at hmarked
    exact hmarked
  cases e with
  | http why => exact (hone why).symm
  | sign why => exact (hone why).symm
  | csr why => exact (hone why).symm
  | noNonce => exact isDns01Failure_fixed (m := "ACME server sent no Replay-Nonce") (by simp [fixedMessages])
  | noAccountLocation =>
    exact isDns01Failure_fixed (m := "ACME server sent no account Location")
      (by simp [fixedMessages])
  | noOrderLocation =>
    exact isDns01Failure_fixed (m := "ACME server sent no order Location")
      (by simp [fixedMessages])
  | malformedOrder => exact isDns01Failure_fixed (m := "malformed ACME order") (by simp [fixedMessages])
  | malformedOrderPolling =>
    exact isDns01Failure_fixed (m := "malformed ACME order while polling")
      (by simp [fixedMessages])
  | noDns01Challenge =>
    exact isDns01Failure_fixed (m := "ACME server offered no dns-01 challenge for this authorization")
      (by simp [fixedMessages])
  | noCertificateUrl =>
    exact isDns01Failure_fixed (m := "order valid but carries no certificate URL")
      (by simp [fixedMessages])
  | waiting => exact isDns01Failure_fixed (m := "") (by simp [fixedMessages])
  | registration status => exact hstatus "account registration failed: " (by simp [fixedFronts]) status
  | orderCreation status => exact hstatus "order creation failed: " (by simp [fixedFronts]) status
  | challengeResponse status => exact hstatus "challenge response failed: " (by simp [fixedFronts]) status
  | finalizeFailed status => exact hstatus "finalize failed: " (by simp [fixedFronts]) status
  | download status => exact hstatus "certificate download failed: " (by simp [fixedFronts]) status
  | notReady status => exact hbracket "order did not reach ready (status=" (by simp [fixedFronts]) status
  | finalizeNotValid status =>
    exact hbracket "order finalize did not reach valid (status=" (by simp [fixedFronts]) status
  | authzTimeout authzUrl =>
    have hend : " did not validate within 120s" ∈ fixedEnds := by simp [fixedEnds]
    exact ((isDns01Failure_end hend ("authorization " ++ authzUrl)).trans
      (isDns01Failure_front (by simp [fixedFronts]) authzUrl)).trans
      (hone authzUrl).symm
  | orderTimeout orderUrl status => exact (isDns01Failure_settle orderUrl status).trans (htwo _ _).symm
  | rejected url body =>
    have hfront : "ACME request to " ∈ fixedFronts := by simp [fixedFronts]
    exact (isDns01Failure_failed hfront url body.display).trans (htwo _ _).symm
  | fetching url status =>
    have hfront : "fetching " ∈ fixedFronts := by simp [fixedFronts]
    exact (isDns01Failure_failed hfront url (statusText reason status)).trans (htwo _ _).symm
  | authzInvalid authzUrl authz => exact (isDns01Failure_invalid authzUrl authz.display).trans (htwo _ _).symm
  | publish why =>
    exact hrace "publishing the DNS-01 challenge record failed"
      "publishing the DNS-01 challenge record failed: " why (by simp [dns01Markers]) rfl
  | authoritativeCheck why =>
    exact hrace "DNS-01 authoritative check failed"
      "DNS-01 authoritative check failed: " why (by simp [dns01Markers]) rfl
  | propagationCheck why =>
    exact hrace "DNS-01 propagation check failed" "DNS-01 propagation check failed: "
      why (by simp [dns01Markers]) rfl
  | validationFailed authzUrl authz =>
    have hmarker : dns01ValidationFailed ∈ dns01Markers := by simp [dns01Markers]
    have hjoin : "authorization " ++ authzUrl ++ " became invalid (" ++ dns01ValidationFailed ++
      "): " ++ authz.display =
        ("authorization " ++ authzUrl ++ " became invalid (") ++ dns01ValidationFailed ++
          ("): " ++ authz.display) := by
      simp only [String.append_assoc]
    have hfailed := (congrArg isDns01Failure hjoin).trans (isDns01Failure_of_marker hmarker _ _)
    have hrace' : (IssueError.validationFailed authzUrl authz).isDns01Race = true := he
    rw [hrace', Bool.true_or]
    exact hfailed

end

section
variable {α : Type}

theorem fails_okOr {e : IssueError} (he : e.Explained) (o : Option α) :
    Fails IssueError.Explained (okOr e o) := by
  cases o with
  | none => exact Fails.fail he
  | some a => exact Fails.ret a

/-- A foreign error is passed on under its kind. -/
theorem fails_lift {f : String → IssueError} (hf : ∀ why, (f why).Explained) (r : Except String α) :
    Fails IssueError.Explained (Talk.lift (r.mapError f) : AcmeRun α) := by
  apply Fails.lift
  intro e h
  cases r with
  | ok a => exact absurd h nofun
  | error why => exact Except.error.inj h ▸ hf why

theorem fails_get : Fails IssueError.Explained (Talk.get : AcmeRun Client) :=
  Fails.of_total (f := fun c => (c, c, [])) (fun _ => rfl)

theorem fails_modify (f : Client → Client) : Fails IssueError.Explained (Talk.modify f : AcmeRun Unit) :=
  Fails.of_total (f := fun c => ((), f c, [])) (fun _ => rfl)

end

theorem fails_postAttempt (url : String) (payload : Option Json) (a : Attempt) :
    Fails IssueError.Explained (postAttempt url payload a) := by
  have hnonce : Fails IssueError.Explained (freshNonce a) := by
    unfold freshNonce
    apply Fails.bind fails_get
    intro c
    split
    · exact Fails.bind (fails_modify _) (fun _ => Fails.ret _)
    · split
      · exact Fails.fail trivial
      · exact Fails.fail trivial
      · exact Fails.ret _
  unfold postAttempt
  apply Fails.bind hnonce
  intro _
  refine Fails.bind (fails_lift (fun _ => by trivial) _) ?_
  intro _
  refine Fails.bind (fails_lift (fun _ => by trivial) _) ?_
  intro resp
  have hsay : Fails IssueError.Explained (Talk.say ⟨url, payload, resp⟩ : AcmeRun Unit) :=
    Fails.of_total (f := fun c => ((), c, [⟨url, payload, resp⟩])) (fun _ => rfl)
  apply Fails.bind hsay
  intro _
  exact Fails.bind (fails_modify _) (fun _ => Fails.ret _)

theorem fails_postSigned (url : String) (payload : Option Json) (p : PostAnswers) :
    Fails IssueError.Explained (postSigned url payload p) := by
  unfold postSigned
  apply Fails.bind (fails_postAttempt url payload p.first)
  intro resp
  split
  · split
    · exact fails_postAttempt url payload p.retry
    · exact Fails.fail trivial
  · exact Fails.ret _

theorem fails_postAsGet (url : String) (p : PostAnswers) : Fails IssueError.Explained (postAsGet url p) := by
  unfold postAsGet
  apply Fails.bind (fails_postSigned url none p)
  intro resp
  split
  · exact fails_lift (fun _ => by trivial) _
  · exact Fails.fail trivial

/-- An invalid authorization carries the marker only with a reason for it. -/
theorem fails_pollAuthz (authzUrl : String) (polls : List PollAnswer) :
    Fails IssueError.Explained (pollAuthz authzUrl polls) := by
  induction polls with
  | nil => exact Fails.fail trivial
  | cons p rest ih =>
    rw [pollAuthz]
    apply Fails.bind (fails_postAsGet authzUrl p.post)
    intro authz
    split
    · exact Fails.ret _
    · split
      · rename_i hrace
        exact Fails.fail hrace
      · exact Fails.fail trivial
    · split
      · exact Fails.fail trivial
      · exact ih

theorem fails_confirmThenComplete (challengeUrl authzUrl : String) (a : AuthzAnswers) :
    Fails IssueError.Explained (confirmThenComplete challengeUrl authzUrl a) := by
  have hcomplete : Fails IssueError.Explained (completeChallenge challengeUrl authzUrl a) := by
    unfold completeChallenge
    apply Fails.bind (fails_postSigned challengeUrl _ a.complete)
    intro resp
    split
    · exact fails_pollAuthz authzUrl a.polls
    · exact Fails.fail trivial
  have hpublic : Fails IssueError.Explained (confirmPublicly challengeUrl authzUrl a) := by
    unfold confirmPublicly
    split
    · exact Fails.fail trivial
    · exact hcomplete
    · exact hcomplete
  unfold confirmThenComplete
  split
  · exact hcomplete
  · split
    · exact hpublic
    · exact Fails.fail trivial
  · exact hpublic

theorem fails_validateAll (answers : ℕ → AuthzAnswers) (i : ℕ) (urls : List String) :
    Fails IssueError.Explained (validateAll answers i urls) := by
  induction urls generalizing i with
  | nil => exact Fails.ret _
  | cons url urls ih =>
    rw [validateAll]
    refine Fails.bind ?_ (fun _ => ih (i + 1))
    unfold validateAuthorization
    apply Fails.bind (fails_postAsGet url (answers i).fetch)
    intro authz
    refine Fails.bind (fails_okOr (by trivial) _) ?_
    intro challenge
    split
    · exact fails_confirmThenComplete challenge.url url (answers i)
    · exact Fails.fail trivial

theorem fails_pollOrder (orderUrl : String) (done : AcmeOrder → Bool) (polls : List PollAnswer) :
    Fails IssueError.Explained (pollOrder orderUrl done polls) := by
  induction polls with
  | nil => exact Fails.fail trivial
  | cons p rest ih =>
    rw [pollOrder]
    apply Fails.bind (fails_postAsGet orderUrl p.post)
    intro json
    refine Fails.bind (fails_okOr (by trivial) _) ?_
    intro order
    split
    · exact Fails.ret _
    · split
      · exact Fails.fail trivial
      · exact ih

theorem fails_ensureAccount (dir : AcmeDirectory) (a : IssueAnswers) :
    Fails IssueError.Explained (ensureAccount dir a) := by
  have hbinding : Fails IssueError.Explained (accountBinding a.binding) := by
    unfold accountBinding
    split
    · exact Fails.bind (fails_lift (fun _ => by trivial) _) (fun _ => Fails.ret _)
    · exact Fails.ret _
  unfold ensureAccount
  apply Fails.bind fails_get
  intro c
  split
  · unfold registerAccount
    apply Fails.bind hbinding
    intro binding
    apply Fails.bind (fails_postSigned dir.newAccount _ a.register)
    intro resp
    split
    · exact Fails.bind (fails_okOr (by trivial) _) (fun _ => fails_modify _)
    · exact Fails.fail trivial
  · exact Fails.ret _

theorem fails_newOrder (dir : AcmeDirectory) (hostname : String) (p : PostAnswers) :
    Fails IssueError.Explained (newOrder dir hostname p) := by
  unfold newOrder
  apply Fails.bind (fails_postSigned dir.newOrder _ p)
  intro resp
  split
  · refine Fails.bind (fails_okOr (by trivial) _) ?_
    intro orderUrl
    refine Fails.bind (fails_lift (fun _ => by trivial) _) ?_
    intro json
    exact Fails.bind (fails_okOr (by trivial) _) (fun _ => Fails.ret _)
  · exact Fails.fail trivial

theorem fails_finalizeIfReady (orderUrl : String) (order : AcmeOrder) (csr : CsrBundle) (a : IssueAnswers) :
    Fails IssueError.Explained (finalizeIfReady orderUrl order csr a) := by
  unfold finalizeIfReady
  split
  · refine Fails.bind ?_ (fun _ => fails_pollOrder orderUrl _ a.pollAgain)
    unfold finalize
    apply Fails.bind (fails_postSigned _ _ a.finalize)
    intro resp
    split
    · exact Fails.ret _
    · exact Fails.fail trivial
  · exact Fails.ret _

theorem fails_issueOnce (dir : AcmeDirectory) (hostname : String) (a : IssueAnswers) :
    Fails IssueError.Explained (issueOnce dir hostname a) := by
  unfold issueOnce
  apply Fails.bind (fails_ensureAccount dir a)
  intro _
  refine Fails.bind (fails_lift (fun _ => by trivial) _) ?_
  intro csr
  apply Fails.bind (fails_newOrder dir hostname a.newOrder)
  intro created
  apply Fails.bind (fails_validateAll a.authz 0 created.2.authorizations)
  intro _
  apply Fails.bind (fails_pollOrder created.1 settled a.poll)
  intro order
  split
  · exact Fails.fail trivial
  · apply Fails.bind (fails_finalizeIfReady created.1 order csr a)
    intro order
    split
    · exact Fails.fail trivial
    · refine Fails.bind (fails_okOr (by trivial) _) ?_
      intro certUrl
      refine Fails.bind ?_ (fun _ => Fails.ret _)
      unfold downloadCertificate
      apply Fails.bind (fails_postSigned certUrl none a.download)
      intro resp
      split
      · exact fails_lift (fun _ => by trivial) _
      · exact Fails.fail trivial

/-- One run of `issue_once`: how it ended, the client it left and its requests. -/
structure IssueRound where
  result : Except IssueError IssuedCert
  client : Client
  log : List Exchange

def issueRound (dir : AcmeDirectory) (hostname : String) (a : IssueAnswers) (c : Client) : IssueRound :=
  let (result, client, log) := issueOnce dir hostname a c
  ⟨result, client, log⟩

section
variable (reason : ℕ → String) (dir : AcmeDirectory) (hostname : String) (attempts : ℕ)
  (answers : ℕ → IssueAnswers)

/-- The failure asks for a fresh order, and there is an attempt left. -/
def startsOver (attempt : ℕ) : Except IssueError IssuedCert → Bool
  | .ok _ => false
  | .error e => isDns01Failure (e.message reason) && decide (attempt < attempts)

/-- The attempts from `attempt` on, `left` of them at most. -/
def issueRounds : (left attempt : ℕ) → Client → List IssueRound
  | 0, _, _ => []
  | left + 1, attempt, c =>
    let r := issueRound dir hostname (answers attempt) c
    if startsOver reason attempts attempt r.result then r :: issueRounds left (attempt + 1) r.client
    else [r]

/-- `issue_certificate_with_attempts`: its rounds, of which the last one is what it returns. -/
def issueCertificateWithAttempts (c : Client) : List IssueRound :=
  issueRounds reason dir hostname attempts answers (max attempts 1) 1 c

end

/-- A request for an order that was answered with one. -/
def CreatesOrder (e : Exchange) : Prop :=
  (∃ j, e.payload = some j ∧ (j.get "identifiers").isSome = true) ∧ e.response.isSuccess = true

instance : DecidablePred CreatesOrder := by
  intro e
  unfold CreatesOrder
  cases e.payload with
  | none => exact decidable_of_iff False (by simp)
  | some j =>
    exact decidable_of_iff ((j.get "identifiers").isSome = true ∧
      e.response.isSuccess = true) (by simp)

theorem not_createsOrder_of_lacks {e : Exchange} (h : Lacks "identifiers" e) : ¬ CreatesOrder e := by
  rintro ⟨⟨j, hj, hsome⟩, -⟩
  rw [h j hj] at hsome
  exact absurd hsome Bool.false_ne_true

/-- An attempt is one exchange at most. -/
theorem postAttempt_atMost (P : Exchange → Prop) [DecidablePred P] (url : String)
    (payload : Option Json) (a : Attempt) :
    AtMost P 1 (postAttempt url payload a) := by
  unfold postAttempt
  apply AtMost.after (says_freshNonce a)
  intro _
  apply AtMost.after (Says.lift _)
  intro _
  apply AtMost.after (Says.lift _)
  intro resp
  apply AtMost.before (AtMost.say _)
  intro _
  exact Says.bind (Says.modify _) (fun _ => Says.ret _)

/-- A request that is repeated was not answered with an order the first time. -/
theorem postSigned_atMost (url : String) (payload : Option Json) (p : PostAnswers) :
    AtMost CreatesOrder 1 (postSigned url payload p) := by
  unfold postSigned
  apply AtMost.bind_of (b := fun resp => if resp.status = 400 then 1 else 0)
    (postAttempt_atMost _ url payload p.first)
  · intro s resp t es h
    obtain ⟨-, es', hes⟩ := postAttempt_ok h
    have hlen := (postAttempt_atMost (fun _ => True) url payload p.first).count s
    rw [h, hes] at hlen
    simp only [decide_true, List.countP_true, List.length_append, List.length_singleton] at hlen
    have hnil : es' = [] := List.eq_nil_of_length_eq_zero (by omega)
    rw [hes, hnil, List.nil_append]
    split
    · rename_i hbad
      have hnot : ¬ CreatesOrder ⟨url, payload, resp⟩ := by
        rintro ⟨-, hsuccess⟩
        simp [HttpResponse.isSuccess, hbad] at hsuccess
      simp [hnot]
    · exact List.countP_le_length
  · intro resp
    split
    · split
      · exact postAttempt_atMost _ url payload p.retry
      · exact ⟨fun _ => Nat.zero_le 1⟩
    · exact ⟨fun _ => Nat.le_refl 0⟩

theorem newOrder_atMost (dir : AcmeDirectory) (hostname : String) (p : PostAnswers) :
    AtMost CreatesOrder 1 (newOrder dir hostname p) := by
  unfold newOrder
  apply AtMost.before (postSigned_atMost dir.newOrder _ p)
  intro resp
  split
  · apply Says.bind (says_okOr _ _)
    intro orderUrl
    apply Says.bind (Says.lift _)
    intro json
    exact Says.bind (says_okOr _ _) (fun _ => Says.ret _)
  · exact Says.fail _

theorem accountPayload_identifiers (binding : Option Json) :
    (accountPayload binding).get "identifiers" = none := by
  cases binding with
  | none => rfl
  | some j => rfl

/-- One run creates one order at most. -/
theorem issueOnce_atMost (dir : AcmeDirectory) (hostname : String) (a : IssueAnswers) :
    AtMost CreatesOrder 1 (issueOnce dir hostname a) := by
  have hlacks {α : Type} {m : AcmeRun α} (h : Says (Lacks "identifiers") m) :
    Says (fun e => ¬ CreatesOrder e) m :=
    h.mono (fun _ => not_createsOrder_of_lacks)
  unfold issueOnce
  apply AtMost.after (hlacks (says_ensureAccount accountPayload_identifiers dir a))
  intro _
  apply AtMost.after (Says.lift _)
  intro csr
  apply AtMost.before (newOrder_atMost dir hostname a.newOrder)
  intro created
  obtain ⟨orderUrl, order⟩ := created
  apply hlacks
  apply Says.bind (says_validateAll a.authz 0 order.authorizations)
  intro _
  apply Says.bind (says_pollOrder orderUrl settled a.poll)
  intro order
  split
  · exact Says.fail _
  · refine Says.bind ?_ (fun order => ?_)
    · unfold finalizeIfReady
      split
      · refine Says.bind ?_ (fun _ => says_pollOrder orderUrl _ a.pollAgain)
        unfold finalize
        apply Says.bind ((says_postSigned _ _ a.finalize).mono (fun _ => lacks_of_some rfl))
        intro resp
        split
        · exact Says.ret _
        · exact Says.fail _
      · exact Says.ret _
    · split
      · exact Says.fail _
      · apply Says.bind (says_okOr _ _)
        intro certUrl
        exact Says.bind (says_downloadCertificate certUrl a.download) (fun _ => Says.ret _)

/-- One order a round, and a further round only behind a failure that a fresh order may mend. -/
structure RetriesTheRace (attempts : ℕ) (rounds : List IssueRound) : Prop where
  orders : (rounds.flatMap IssueRound.log).countP CreatesOrder ≤ max attempts 1
  further : ∀ i r, rounds[i]? = some r → i + 1 < rounds.length → ∃ e, r.result = .error e ∧
    e.isDns01Race = true

section
variable (dir : AcmeDirectory) (hostname : String) (answers : ℕ → IssueAnswers) (attempt : ℕ) (c : Client)

/-- The client `i` attempts after `attempt`, however these end. -/
def clientAfter : ℕ → Client
  | 0 => c
  | i + 1 => (issueRound dir hostname (answers (attempt + i)) (clientAfter i)).client

/-- The order `i` attempts after `attempt`. -/
def nthRound (i : ℕ) : IssueRound :=
  issueRound dir hostname (answers (attempt + i)) (clientAfter dir hostname answers attempt c i)

/-- Where the orders before failed in the race and this one fails in another way, with an attempt left,
nothing that its message shows has a marker in it. -/
def OthersShowNoMarker (reason : ℕ → String) (attempts : ℕ) : Prop :=
  ∀ i e, i + 1 < attempts →
    (∀ j < i, ∃ e', (nthRound dir hostname answers 1 c j).result = .error e' ∧ e'.isDns01Race = true) →
    (nthRound dir hostname answers 1 c i).result = .error e → e.isDns01Race = false →
    ∀ text ∈ e.shown reason, isDns01Failure text = false

theorem nthRound_explained {i : ℕ} {e : IssueError}
    (he : (nthRound dir hostname answers attempt c i).result = .error e) :
    e.Explained := by
  apply (fails_issueOnce dir hostname (answers (attempt + i))).all
    (clientAfter dir hostname answers attempt c i) e
    (nthRound dir hostname answers attempt c i).client (nthRound dir hostname answers attempt c i).log
  rw [← he]
  rfl

theorem clientAfter_succ (i : ℕ) :
    clientAfter dir hostname answers attempt c (i + 1) =
      clientAfter dir hostname answers (attempt + 1)
        (issueRound dir hostname (answers attempt) c).client i := by
  induction i with
  | zero => rfl
  | succ i ih =>
    have hattempt : attempt + (i + 1) = attempt + 1 + i := by omega
    rw [clientAfter, ih, clientAfter, hattempt]

theorem nthRound_succ (i : ℕ) :
    nthRound dir hostname answers attempt c (i + 1) =
      nthRound dir hostname answers (attempt + 1) (issueRound dir hostname (answers attempt) c).client i := by
  have hattempt : attempt + (i + 1) = attempt + 1 + i := by omega
  unfold nthRound
  rw [clientAfter_succ, hattempt]

end

section
variable {reason : ℕ → String} {dir : AcmeDirectory} {hostname : String} {attempts : ℕ}
  {answers : ℕ → IssueAnswers}
  {left attempt : ℕ} {c : Client}

theorem orders_issueRounds :
    ((issueRounds reason dir hostname attempts answers left attempt c).flatMap IssueRound.log).countP
    CreatesOrder ≤
      left := by
  induction left generalizing attempt c with
  | zero => exact Nat.le_refl 0
  | succ left ih =>
    have hround : (issueRound dir hostname (answers attempt) c).log.countP CreatesOrder ≤ 1 :=
      (issueOnce_atMost dir hostname (answers attempt)).count c
    rw [issueRounds]
    split
    · have hrest := @ih (attempt + 1) (issueRound dir hostname (answers attempt) c).client
      rw [List.flatMap_cons, List.countP_append]
      omega
    · rw [List.flatMap_cons, List.countP_append, List.flatMap_nil, List.countP_nil]
      omega

theorem startsOver_left {result : Except IssueError IssuedCert}
    (h : startsOver reason attempts attempt result = true) :
    attempt < attempts := by
  unfold startsOver at h
  split at h
  · exact absurd h Bool.false_ne_true
  · exact of_decide_eq_true (Bool.and_eq_true_iff.mp h).2

theorem startsOver_iff {result : Except IssueError IssuedCert}
    (hexplained : ∀ e, result = .error e → e.Explained) :
    startsOver reason attempts attempt result = true ↔
      ∃ e, result = .error e ∧ attempt < attempts ∧
        (e.isDns01Race = true ∨ ∃ text ∈ e.shown reason, isDns01Failure text = true) := by
  cases result with
  | ok cert => simp [startsOver]
  | error e =>
    change (isDns01Failure (e.message reason) && decide (attempt < attempts)) = true ↔ _
    rw [isDns01Failure_message reason (hexplained e rfl), Bool.and_eq_true, Bool.or_eq_true, List.any_eq_true,
      decide_eq_true_iff]
    constructor
    · intro h
      exact ⟨e, rfl, h.2, h.1⟩
    · intro h
      obtain ⟨e', he', hleft, hasks⟩ := h
      obtain rfl := Except.error.inj he'
      exact ⟨hasks, hleft⟩

/-- A round is followed by another where it asks for it. -/
theorem issueRounds_further (hleft : attempts < attempt + left) {i : ℕ} {r : IssueRound}
    (hr : (issueRounds reason dir hostname attempts answers left attempt c)[i]? = some r) :
    i + 1 < (issueRounds reason dir hostname attempts answers left attempt c).length ↔
      startsOver reason attempts (attempt + i) r.result = true := by
  induction left generalizing attempt c i with
  | zero => exact absurd hr nofun
  | succ left ih =>
    rw [issueRounds] at hr ⊢
    by_cases hagain : startsOver reason attempts attempt
      (issueRound dir hostname (answers attempt) c).result = true
    · rw [if_pos hagain] at hr ⊢
      -- with an attempt left there is a round left
      have hpos : attempt < attempts := startsOver_left hagain
      cases i with
      | zero =>
        obtain rfl := Option.some.inj hr
        rw [Nat.add_zero, List.length_cons]
        refine iff_of_true ?_ hagain
        cases left with
        | zero => omega
        | succ left =>
          rw [issueRounds]
          split
          · exact Nat.succ_lt_succ (Nat.succ_pos _)
          · exact Nat.succ_lt_succ (Nat.succ_pos _)
      | succ i =>
        have hnext := @ih (attempt + 1) (issueRound dir hostname (answers attempt) c).client (by omega) i hr
        rw [List.length_cons, Nat.add_lt_add_iff_right, hnext]
        have hsame : attempt + 1 + i = attempt + (i + 1) := by omega
        rw [hsame]
    · rw [if_neg hagain] at hr ⊢
      cases i with
      | zero =>
        obtain rfl := Option.some.inj hr
        exact iff_of_false (Nat.lt_irrefl 1) hagain
      | succ i => exact absurd hr nofun

theorem eq_nthRound {i : ℕ} {r : IssueRound}
    (hr : (issueRounds reason dir hostname attempts answers left attempt c)[i]? = some r) :
    r = nthRound dir hostname answers attempt c i := by
  induction left generalizing attempt c i with
  | zero => exact absurd hr nofun
  | succ left ih =>
    rw [issueRounds] at hr
    cases i with
    | zero =>
      split at hr
      · exact (Option.some.inj hr).symm
      · exact (Option.some.inj hr).symm
    | succ i =>
      rw [nthRound_succ]
      split at hr
      · exact ih hr
      · exact absurd hr nofun

/-- A round is there where all before it ask for the next. -/
theorem lt_length_issueRounds (hleft : attempts < attempt + left) (hpos : 0 < left) {i : ℕ} :
    i < (issueRounds reason dir hostname attempts answers left attempt c).length ↔
      ∀ j < i, startsOver reason attempts (attempt + j)
        (nthRound dir hostname answers attempt c j).result = true := by
  induction i with
  | zero =>
    obtain ⟨left, rfl⟩ := Nat.exists_eq_add_of_lt hpos
    rw [Nat.zero_add, issueRounds]
    refine iff_of_true ?_ (fun j hj => absurd hj (Nat.not_lt_zero j))
    split
    · exact Nat.succ_pos _
    · exact Nat.succ_pos _
  | succ i ih =>
    constructor
    · intro h j hj
      have hlt := Nat.lt_of_succ_lt h
      rcases Nat.lt_succ_iff_lt_or_eq.mp hj with hj | rfl
      · exact ih.mp hlt j hj
      · have hr := List.getElem?_eq_getElem hlt
        rw [← eq_nthRound hr]
        exact (issueRounds_further hleft hr).mp h
    · intro h
      have hlt := ih.mpr (fun j hj => h j (Nat.lt_succ_of_lt hj))
      have hr := List.getElem?_eq_getElem hlt
      apply (issueRounds_further hleft hr).mpr
      rw [eq_nthRound hr]
      exact h i (Nat.lt_succ_self i)

end

/-- Fresh orders are for the race alone exactly where no other failure with an attempt left shows a
marker. -/
theorem retries_the_race_iff (reason : ℕ → String) (dir : AcmeDirectory) (hostname : String) (attempts : ℕ)
    (answers : ℕ → IssueAnswers) (c : Client) :
    RetriesTheRace attempts (issueCertificateWithAttempts reason dir hostname attempts answers c) ↔
      OthersShowNoMarker dir hostname answers c reason attempts := by
  have hleft : attempts < 1 + max attempts 1 := by omega
  have hpos : 0 < max attempts 1 := by omega
  have hasks (i : ℕ) : startsOver reason attempts (1 + i) (nthRound dir hostname answers 1 c i).result = true ↔
      ∃ e, (nthRound dir hostname answers 1 c i).result = .error e ∧ 1 + i < attempts ∧
        (e.isDns01Race = true ∨ ∃ text ∈ e.shown reason, isDns01Failure text = true) :=
    startsOver_iff (fun _ he => nthRound_explained dir hostname answers 1 c he)
  constructor
  · intro h i e hi hbefore he hother text htext
    by_contra hmarked
    rw [Bool.not_eq_false] at hmarked
    -- the rounds reach this order and go on behind it
    have hreach : ∀ j < i + 1, startsOver reason attempts (1 + j)
      (nthRound dir hostname answers 1 c j).result = true := by
      intro j hj
      rcases Nat.lt_succ_iff_lt_or_eq.mp hj with hj | rfl
      · obtain ⟨e', he', hrace⟩ := hbefore j hj
        exact (hasks j).mpr ⟨e', he', by omega, Or.inl hrace⟩
      · exact (hasks j).mpr ⟨e, he, by omega, Or.inr ⟨text, htext, hmarked⟩⟩
    have hlong := (lt_length_issueRounds hleft hpos).mpr hreach
    have hr := List.getElem?_eq_getElem (Nat.lt_of_succ_lt hlong)
    obtain ⟨e', he', hrace⟩ := h.further i _ hr hlong
    rw [eq_nthRound hr, he] at he'
    rw [← Except.error.inj he', hother] at hrace
    exact absurd hrace Bool.false_ne_true
  · intro h
    refine ⟨orders_issueRounds, ?_⟩
    have hrace : ∀ i, i + 1 < (issueCertificateWithAttempts reason dir hostname attempts answers c).length →
        ∃ e, (nthRound dir hostname answers 1 c i).result = .error e ∧ e.isDns01Race = true := by
      intro i
      induction i using Nat.strongRecOn with
      | ind i ih =>
        intro hi
        have hbefore := fun j hj => ih j hj (by omega)
        have hstart := (lt_length_issueRounds hleft hpos).mp hi i (Nat.lt_succ_self i)
        obtain ⟨e, he, hattempt, hwhy⟩ := (hasks i).mp hstart
        refine ⟨e, he, ?_⟩
        by_contra hother
        rw [Bool.not_eq_true] at hother
        obtain ⟨text, htext, hmarked⟩ := hwhy.resolve_left (by rw [hother]; exact Bool.false_ne_true)
        rw [h i e (by omega) hbefore he hother text htext] at hmarked
        exact absurd hmarked Bool.false_ne_true
    intro i r hr hi
    rw [eq_nthRound hr]
    exact hrace i hi

/-- A rejection whose detail is a marker. -/
def sampleRejection : Json :=
  .obj [("detail", .str "DNS-01 validation failed for this account too often"),
    ("type", .str "urn:ietf:params:acme:error:rateLimited")]

def sampleRejected : Attempt :=
  ⟨.ok (some "nonce"), .ok (), .ok ⟨400, none, none, .ok sampleRejection, .ok ""⟩⟩

/-- Every order is rejected. -/
def sampleRefusing : IssueAnswers :=
  { sampleAnswers "ready" with newOrder := ⟨sampleRejected, sampleRejected⟩ }

def sampleRefusedRounds : List IssueRound :=
  issueCertificateWithAttempts (fun _ => "OK") sampleDirectory "a.test" 3 (fun _ => sampleRefusing)
    ⟨none, some "https://ca.test/acct/1"⟩

/-- A rate limit is taken for the race. -/
theorem rejection_retried :
    ¬ ∀ reason dir hostname attempts answers c,
      RetriesTheRace attempts (issueCertificateWithAttempts reason dir hostname attempts answers c) := by
  intro h
  have hrounds : RetriesTheRace 3 sampleRefusedRounds := h _ _ _ _ _ _
  have hlong : sampleRefusedRounds.length = 3 := by decide +kernel
  have hfirst : 0 < sampleRefusedRounds.length := by omega
  have hr := List.getElem?_eq_getElem hfirst
  obtain ⟨e, he, hrace⟩ := hrounds.further 0 _ hr (by omega)
  rw [eq_nthRound hr] at he
  have hrejected : IssueError.rejected sampleDirectory.newOrder sampleRejection = e := Except.error.inj he
  rw [← hrejected] at hrace
  exact absurd hrace Bool.false_ne_true

end CtAgent.Acme
