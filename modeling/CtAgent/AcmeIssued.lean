import CtAgent.AcmeClient

/-! Whose key an issued certificate comes with. -/
namespace CtAgent.Acme
open CtAgent.Lib Talk

/-- The response a request comes back with, after the one retry. -/
def PostAnswers.response (p : PostAnswers) : Option HttpResponse :=
  match p.first.send with
  | .ok resp =>
    if resp.status = 400 then
      if isBadNonce resp then p.retry.send.toOption else none
    else some resp
  | .error _ => none

/-- The order a poll reads. -/
def PollAnswer.order (p : PollAnswer) : Option AcmeOrder := do
  let resp ← p.post.response
  let json ← resp.json.toOption
  parseOrder json

/-- The status of the first order that is neither pending nor processing. -/
def settledStatus : List PollAnswer → Option String
  | [] => none
  | p :: rest =>
    match p.order with
    | some o => if settled o then some o.status else settledStatus rest
    | none => none

theorem of_lift_ok {α : Type} {r : Except IssueError α} {c c' : Client} {a : α} {es : List Exchange}
    (h : (Talk.lift r : AcmeRun α) c = (.ok a, c', es)) : r = .ok a ∧ c = c' ∧ es = [] := by
  obtain ⟨h1, h2⟩ := Prod.mk.inj h
  obtain ⟨h2, h3⟩ := Prod.mk.inj h2
  exact ⟨h1, h2, h3.symm⟩

theorem of_mapError_ok {ε ε' α : Type} {f : ε → ε'} {r : Except ε α} {a : α} (h : r.mapError f = .ok a) :
    r = .ok a := by
  cases r with
  | error e => exact absurd h nofun
  | ok b => exact congrArg Except.ok (Except.ok.inj h)

theorem okOr_ok {α : Type} {e : IssueError} {o : Option α} {c c' : Client} {a : α} {es : List Exchange}
    (h : okOr e o c = (.ok a, c', es)) : o = some a ∧ c = c' ∧ es = [] := by
  cases o with
  | none => exact absurd h fail_ok
  | some b =>
    obtain ⟨hb, hc, hes⟩ := ret_ok h
    exact ⟨congrArg some hb, hc, hes⟩

/-- A request adds exchanges of its own URL and payload only. -/
def Of (url : String) (payload : Option Json) (e : Exchange) : Prop := e.url = url ∧ e.payload = payload

theorem says_freshNonce {P : Exchange → Prop} (a : Attempt) : Says P (freshNonce a) := by
  unfold freshNonce
  apply Says.bind Says.get
  intro c
  split
  · exact Says.bind (Says.modify _) (fun _ => Says.ret _)
  · split
    · exact Says.fail _
    · exact Says.fail _
    · exact Says.ret _

theorem says_postAttempt (url : String) (payload : Option Json) (a : Attempt) :
    Says (Of url payload) (postAttempt url payload a) := by
  unfold postAttempt
  apply Says.bind (says_freshNonce a)
  intro _
  apply Says.bind (Says.lift _)
  intro _
  apply Says.bind (Says.lift _)
  intro resp
  apply Says.bind (Says.say ⟨rfl, rfl⟩)
  intro _
  exact Says.bind (Says.modify _) (fun _ => Says.ret _)

theorem says_postSigned (url : String) (payload : Option Json) (p : PostAnswers) :
    Says (Of url payload) (postSigned url payload p) := by
  unfold postSigned
  apply Says.bind (says_postAttempt url payload p.first)
  intro resp
  split
  · split
    · exact says_postAttempt url payload p.retry
    · exact Says.fail _
  · exact Says.ret _

theorem postAttempt_ok {url : String} {payload : Option Json} {a : Attempt} {c c' : Client}
    {resp : HttpResponse} {es : List Exchange} (h : postAttempt url payload a c = (.ok resp, c', es)) :
    a.send = .ok resp ∧ ∃ es', es = es' ++ [⟨url, payload, resp⟩] := by
  unfold postAttempt at h
  obtain ⟨_, _, es₁, _, -, h₁, hes⟩ := of_bind_ok h
  obtain ⟨_, _, es₂, _, -, h₂, hes₂⟩ := of_bind_ok h₁
  obtain ⟨resp', _, es₃, _, hsend, h₃, hes₃⟩ := of_bind_ok h₂
  obtain ⟨_, _, es₄, _, hsay, h₄, hes₄⟩ := of_bind_ok h₃
  obtain ⟨_, _, es₅, _, hmodify, h₅, hes₅⟩ := of_bind_ok h₄
  obtain ⟨rfl, -, hnil⟩ := ret_ok h₅
  obtain ⟨hsend, -, hsent⟩ := of_lift_ok hsend
  have hsaid : [_] = es₄ := (Prod.mk.inj (Prod.mk.inj hsay).2).2
  have hmodified : [] = es₅ := (Prod.mk.inj (Prod.mk.inj hmodify).2).2
  refine ⟨of_mapError_ok hsend, es₁ ++ es₂, ?_⟩
  rw [hes, hes₂, hes₃, hes₄, hes₅, hnil, hsent, ← hsaid, ← hmodified]
  simp

theorem postSigned_ok {url : String} {payload : Option Json} {p : PostAnswers} {c c' : Client}
    {resp : HttpResponse} {es : List Exchange} (h : postSigned url payload p c = (.ok resp, c', es)) :
    p.response = some resp ∧ ∃ es', es = es' ++ [⟨url, payload, resp⟩] := by
  unfold postSigned at h
  obtain ⟨resp₁, c₁, es₁, es₂, hfirst, h₁, hes⟩ := of_bind_ok h
  obtain ⟨hsend, es', hes₁⟩ := postAttempt_ok hfirst
  unfold PostAnswers.response
  rw [hsend]
  split at h₁
  · rename_i hbad
    split at h₁
    · rename_i hnonce
      obtain ⟨hretry, es'', hes₂⟩ := postAttempt_ok h₁
      rw [hretry]
      exact ⟨(if_pos hbad).trans (if_pos hnonce), es₁ ++ es'', by rw [hes, hes₂, List.append_assoc]⟩
    · exact absurd h₁ fail_ok
  · rename_i hfine
    obtain ⟨rfl, -, hnil⟩ := ret_ok h₁
    exact ⟨if_neg hfine, es', by rw [hes, hes₁, hnil, List.append_nil]⟩

theorem postAsGet_ok {url : String} {p : PostAnswers} {c c' : Client} {json : Json} {es : List Exchange}
    (h : postAsGet url p c = (.ok json, c', es)) :
    ∃ resp es', p.response = some resp ∧ resp.json = .ok json ∧ es = es' ++ [⟨url, none, resp⟩] := by
  unfold postAsGet at h
  obtain ⟨resp, c₁, es₁, es₂, hpost, h₁, hes⟩ := of_bind_ok h
  obtain ⟨hresp, es', hes₁⟩ := postSigned_ok hpost
  split at h₁
  · obtain ⟨hjson, -, hnil⟩ := of_lift_ok h₁
    exact ⟨resp, es', hresp, of_mapError_ok hjson, by rw [hes, hes₁, hnil, List.append_nil]⟩
  · exact absurd h₁ fail_ok

/-- The order a poll ends with is the one its last response shows. -/
theorem pollOrder_ok {orderUrl : String} {done : AcmeOrder → Bool} {polls : List PollAnswer} {c c' : Client}
    {order : AcmeOrder} {es : List Exchange} (h : pollOrder orderUrl done polls c = (.ok order, c', es)) :
    done order = true ∧
      ∃ es' resp json, es = es' ++ [⟨orderUrl, none, resp⟩] ∧ resp.json = .ok json ∧
        parseOrder json = some order := by
  induction polls generalizing c es with
  | nil => exact absurd h fail_ok
  | cons p rest ih =>
    rw [pollOrder] at h
    obtain ⟨json, c₁, es₁, _, hget, h₁, hes⟩ := of_bind_ok h
    obtain ⟨order', c₂, es₂, es₃, horder, h₂, hes'⟩ := of_bind_ok h₁
    obtain ⟨resp, es', -, hjson, hes₁⟩ := postAsGet_ok hget
    obtain ⟨hparse, -, hnil⟩ := okOr_ok horder
    split at h₂
    · rename_i hdone
      obtain ⟨rfl, -, hnil'⟩ := ret_ok h₂
      exact ⟨hdone, es', resp, json, by rw [hes, hes', hnil, hnil', hes₁]; simp, hjson, hparse⟩
    · split at h₂
      · exact absurd h₂ fail_ok
      · obtain ⟨hdone, es'', resp', json', hes₃, hjson', hparse'⟩ := ih h₂
        exact ⟨hdone, es₁ ++ es'', resp', json', by rw [hes, hes', hnil, hes₃]; simp, hjson', hparse'⟩

/-- The first poll ends with the first order that has settled. -/
theorem pollOrder_settled {orderUrl : String} {polls : List PollAnswer} {c c' : Client} {order : AcmeOrder}
    {es : List Exchange} (h : pollOrder orderUrl settled polls c = (.ok order, c', es)) :
    settledStatus polls = some order.status := by
  induction polls generalizing c es with
  | nil => exact absurd h fail_ok
  | cons p rest ih =>
    rw [pollOrder] at h
    obtain ⟨json, c₁, es₁, _, hget, h₁, -⟩ := of_bind_ok h
    obtain ⟨order', c₂, es₂, es₃, horder, h₂, -⟩ := of_bind_ok h₁
    obtain ⟨resp, es', hresp, hjson, -⟩ := postAsGet_ok hget
    obtain ⟨hparse, -, -⟩ := okOr_ok horder
    have hpoll : p.order = some order' := by
      unfold PollAnswer.order
      rw [hresp]
      change (resp.json.toOption.bind parseOrder) = some order'
      rw [hjson]
      exact hparse
    rw [settledStatus, hpoll]
    split at h₂
    · rename_i hdone
      obtain ⟨rfl, -, -⟩ := ret_ok h₂
      exact if_pos hdone
    · rename_i hdone
      split at h₂
      · exact absurd h₂ fail_ok
      · exact (if_neg hdone).trans (ih h₂)

/-- Not a finalisation: no CSR in the payload. -/
def NoCsr (e : Exchange) : Prop := ∀ j, e.payload = some j → j.get "csr" = none

/-- No field of this name in the payload. -/
def Lacks (key : String) (e : Exchange) : Prop := ∀ j, e.payload = some j → j.get key = none

theorem lacks_of_none {key url : String} {e : Exchange} (h : Of url none e) : Lacks key e := by
  intro j hj
  exact absurd (hj.symm.trans h.2) nofun

theorem lacks_of_some {key url : String} {payload : Json} (hp : payload.get key = none) {e : Exchange}
    (h : Of url (some payload) e) : Lacks key e := by
  intro j hj
  have he := Option.some.inj (hj.symm.trans h.2)
  exact he ▸ hp

theorem says_okOr {α : Type} {P : Exchange → Prop} (e : IssueError) (o : Option α) : Says P (okOr e o) := by
  cases o with
  | none => exact Says.fail e
  | some a => exact Says.ret a

theorem accountPayload_csr (binding : Option Json) : (accountPayload binding).get "csr" = none := by
  cases binding with
  | none => rfl
  | some j => rfl

section
variable {key : String}

theorem says_postAsGet (url : String) (p : PostAnswers) : Says (Lacks key) (postAsGet url p) := by
  unfold postAsGet
  apply Says.bind ((says_postSigned url none p).mono (fun _ => lacks_of_none))
  intro resp
  split
  · exact Says.lift _
  · exact Says.fail _

theorem says_pollOrder (orderUrl : String) (done : AcmeOrder → Bool) (polls : List PollAnswer) :
    Says (Lacks key) (pollOrder orderUrl done polls) := by
  induction polls with
  | nil => exact Says.fail _
  | cons p rest ih =>
    rw [pollOrder]
    apply Says.bind (says_postAsGet orderUrl p.post)
    intro json
    apply Says.bind (says_okOr _ _)
    intro order
    split
    · exact Says.ret _
    · split
      · exact Says.fail _
      · exact ih

theorem says_pollAuthz (authzUrl : String) (polls : List PollAnswer) :
    Says (Lacks key) (pollAuthz authzUrl polls) := by
  induction polls with
  | nil => exact Says.fail _
  | cons p rest ih =>
    rw [pollAuthz]
    apply Says.bind (says_postAsGet authzUrl p.post)
    intro authz
    split
    · exact Says.ret _
    · split
      · exact Says.fail _
      · exact Says.fail _
    · split
      · exact Says.fail _
      · exact ih

theorem says_completeChallenge (challengeUrl authzUrl : String) (a : AuthzAnswers) :
    Says (Lacks key) (completeChallenge challengeUrl authzUrl a) := by
  unfold completeChallenge
  apply Says.bind ((says_postSigned challengeUrl _ a.complete).mono (fun _ => lacks_of_some rfl))
  intro resp
  split
  · exact says_pollAuthz authzUrl a.polls
  · exact Says.fail _

theorem says_confirmThenComplete (challengeUrl authzUrl : String) (a : AuthzAnswers) :
    Says (Lacks key) (confirmThenComplete challengeUrl authzUrl a) := by
  have hcomplete : Says (Lacks key) (completeChallenge challengeUrl authzUrl a) :=
    says_completeChallenge challengeUrl authzUrl a
  have hpublic : Says (Lacks key) (confirmPublicly challengeUrl authzUrl a) := by
    unfold confirmPublicly
    split
    · exact Says.fail _
    · exact hcomplete
    · exact hcomplete
  unfold confirmThenComplete
  split
  · exact hcomplete
  · split
    · exact hpublic
    · exact Says.fail _
  · exact hpublic

theorem says_validateAll (answers : ℕ → AuthzAnswers) (i : ℕ) (urls : List String) :
    Says (Lacks key) (validateAll answers i urls) := by
  induction urls generalizing i with
  | nil => exact Says.ret _
  | cons url urls ih =>
    rw [validateAll]
    refine Says.bind ?_ (fun _ => ih (i + 1))
    unfold validateAuthorization
    apply Says.bind (says_postAsGet url (answers i).fetch)
    intro authz
    apply Says.bind (says_okOr _ _)
    intro challenge
    split
    · exact says_confirmThenComplete challenge.url url (answers i)
    · exact Says.fail _

theorem says_ensureAccount (hkey : ∀ binding, (accountPayload binding).get key = none) (dir : AcmeDirectory)
    (a : IssueAnswers) : Says (Lacks key) (ensureAccount dir a) := by
  unfold ensureAccount
  apply Says.bind Says.get
  intro c
  split
  · unfold registerAccount
    have hbinding : Says (Lacks key) (accountBinding a.binding) := by
      unfold accountBinding
      split
      · exact Says.bind (Says.lift _) (fun _ => Says.ret _)
      · exact Says.ret _
    apply Says.bind hbinding
    intro binding
    apply Says.bind ((says_postSigned dir.newAccount _ a.register).mono
      (fun _ => lacks_of_some (hkey binding)))
    intro resp
    split
    · exact Says.bind (says_okOr _ _) (fun _ => Says.modify _)
    · exact Says.fail _
  · exact Says.ret _

theorem says_newOrder (dir : AcmeDirectory) (hostname : String) (p : PostAnswers) :
    Says NoCsr (newOrder dir hostname p) := by
  unfold newOrder
  apply Says.bind ((says_postSigned dir.newOrder _ p).mono (fun _ => lacks_of_some rfl))
  intro resp
  split
  · apply Says.bind (says_okOr _ _)
    intro orderUrl
    apply Says.bind (Says.lift _)
    intro json
    exact Says.bind (says_okOr _ _) (fun _ => Says.ret _)
  · exact Says.fail _

theorem says_downloadCertificate (certUrl : String) (p : PostAnswers) :
    Says (Lacks key) (downloadCertificate certUrl p) := by
  unfold downloadCertificate
  apply Says.bind ((says_postSigned certUrl none p).mono (fun _ => lacks_of_none))
  intro resp
  split
  · exact Says.lift _
  · exact Says.fail _

end

/-- The order is the one the server's `Location` names. -/
theorem newOrder_ok {dir : AcmeDirectory} {hostname orderUrl : String} {order : AcmeOrder} {p : PostAnswers}
    {c c' : Client} {es : List Exchange} (h : newOrder dir hostname p c = (.ok (orderUrl, order), c', es)) :
    ∃ created ∈ es, created.url = dir.newOrder ∧ created.response.location = some orderUrl := by
  unfold newOrder at h
  obtain ⟨resp, c₁, es₁, es₂, hpost, h₁, hes⟩ := of_bind_ok h
  obtain ⟨-, es', hes₁⟩ := postSigned_ok hpost
  split at h₁
  · obtain ⟨url, _, _, _, hlocation, h₂, -⟩ := of_bind_ok h₁
    obtain ⟨json, _, _, _, -, h₃, -⟩ := of_bind_ok h₂
    obtain ⟨order', _, _, _, -, h₄, -⟩ := of_bind_ok h₃
    obtain ⟨hpair, -, -⟩ := ret_ok h₄
    obtain ⟨rfl, -⟩ := Prod.mk.inj hpair
    refine ⟨⟨dir.newOrder, some (orderPayload hostname), resp⟩, ?_, rfl, (okOr_ok hlocation).1⟩
    rw [hes, hes₁]
    simp
  · exact absurd h₁ fail_ok

theorem finalize_ok {finalizeUrl : String} {csr : CsrBundle} {p : PostAnswers} {c c' : Client} {u : Unit}
    {es : List Exchange} (h : finalize finalizeUrl csr p c = (.ok u, c', es)) :
    ∃ es' resp, es = es' ++ [⟨finalizeUrl, some (csrPayload csr), resp⟩] ∧ resp.isSuccess = true := by
  unfold finalize at h
  obtain ⟨resp, c₁, es₁, es₂, hpost, h₁, hes⟩ := of_bind_ok h
  obtain ⟨-, es', hes₁⟩ := postSigned_ok hpost
  split at h₁
  · rename_i hsuccess
    obtain ⟨-, -, hnil⟩ := ret_ok h₁
    exact ⟨es', resp, by rw [hes, hes₁, hnil, List.append_nil], hsuccess⟩
  · exact absurd h₁ fail_ok

theorem downloadCertificate_ok {certUrl chain : String} {p : PostAnswers} {c c' : Client}
    {es : List Exchange} (h : downloadCertificate certUrl p c = (.ok chain, c', es)) :
    ∃ es' resp, es = es' ++ [⟨certUrl, none, resp⟩] ∧ resp.isSuccess = true ∧ resp.text = .ok chain := by
  unfold downloadCertificate at h
  obtain ⟨resp, c₁, es₁, es₂, hpost, h₁, hes⟩ := of_bind_ok h
  obtain ⟨-, es', hes₁⟩ := postSigned_ok hpost
  split at h₁
  · rename_i hsuccess
    obtain ⟨htext, -, hnil⟩ := of_lift_ok h₁
    exact ⟨es', resp, by rw [hes, hes₁, hnil, List.append_nil], hsuccess, of_mapError_ok htext⟩
  · exact absurd h₁ fail_ok

/-- The response shows this order. -/
def Reads (e : Exchange) (o : AcmeOrder) : Prop :=
  ∃ json, e.response.json = .ok json ∧ parseOrder json = some o

/-- In the transcript the order is ready, its finalize URL takes the CSR of the returned key, the order
is seen valid, and the chain is the one at the certificate URL it then carries. -/
def KeyFinalized (dir : AcmeDirectory) (a : IssueAnswers) (cert : IssuedCert) (log : List Exchange) : Prop :=
  ∃ (csr : CsrBundle) (orderUrl : String) (o o' : AcmeOrder) (pre mid mid' post : List Exchange)
    (ready finalized seen downloaded : Exchange),
    a.csr = .ok csr ∧ cert.keyPem = csr.keyPem ∧
    log = pre ++ ready :: (mid ++ finalized :: (mid' ++ seen :: (post ++ [downloaded]))) ∧
    (∃ created ∈ pre, created.url = dir.newOrder ∧ created.response.location = some orderUrl) ∧
    (ready.url = orderUrl ∧ Reads ready o ∧ o.status = "ready") ∧
    (finalized.url = o.finalize ∧ finalized.payload = some (csrPayload csr) ∧
      finalized.response.isSuccess = true) ∧
    (seen.url = orderUrl ∧ Reads seen o' ∧ o'.status = "valid" ∧ o'.certificate = some downloaded.url) ∧
    downloaded.response.isSuccess = true ∧ downloaded.response.text = .ok cert.certChainPem

/-- What a run that issues a certificate consists of. -/
theorem issueOnce_ok {dir : AcmeDirectory} {hostname : String} {a : IssueAnswers} {c c' : Client}
    {cert : IssuedCert} {log : List Exchange} (h : issueOnce dir hostname a c = (.ok cert, c', log)) :
    ∃ (csr : CsrBundle) (orderUrl : String) (o o' : AcmeOrder) (c₁ c₂ c₃ c₄ : Client)
      (before es₁ es₂ es₃ : List Exchange),
      a.csr = .ok csr ∧ cert.keyPem = csr.keyPem ∧ log = before ++ (es₁ ++ (es₂ ++ es₃)) ∧
      (∀ e ∈ before, NoCsr e) ∧
      (∃ created ∈ before, created.url = dir.newOrder ∧ created.response.location = some orderUrl) ∧
      pollOrder orderUrl settled a.poll c₁ = (.ok o, c₂, es₁) ∧
      (o.status = "ready" ∨ o.status = "processing" ∨ o.status = "valid") ∧
      finalizeIfReady orderUrl o csr a c₂ = (.ok o', c₃, es₂) ∧ o'.status = "valid" ∧
      ∃ certUrl, o'.certificate = some certUrl ∧
        downloadCertificate certUrl a.download c₃ = (.ok cert.certChainPem, c₄, es₃) := by
  unfold issueOnce at h
  obtain ⟨_, _, es₀, _, haccount, h₁, hes₀⟩ := of_bind_ok h
  obtain ⟨csr, _, esCsr, _, hcsr, h₂, hes₁⟩ := of_bind_ok h₁
  obtain ⟨hcsr, -, hnilCsr⟩ := of_lift_ok hcsr
  obtain ⟨⟨orderUrl, order⟩, _, esNew, _, hnew, h₃, hes₂⟩ := of_bind_ok h₂
  obtain ⟨_, c₁, esAuthz, _, hauthz, h₄, hes₃⟩ := of_bind_ok h₃
  obtain ⟨o, c₂, es₁, _, hpoll, h₅, hes₄⟩ := of_bind_ok h₄
  split at h₅
  · exact absurd h₅ fail_ok
  · rename_i hstatus
    obtain ⟨o', c₃, es₂, _, hfinal, h₆, hes₅⟩ := of_bind_ok h₅
    split at h₆
    · exact absurd h₆ fail_ok
    · rename_i hvalid
      obtain ⟨certUrl, _, esUrl, _, hurl, h₇, hes₆⟩ := of_bind_ok h₆
      obtain ⟨hcertUrl, hsame, hnilUrl⟩ := okOr_ok hurl
      subst hsame
      obtain ⟨chain, c₄, es₃, _, hdownload, h₈, hes₇⟩ := of_bind_ok h₇
      obtain ⟨hcert, -, hnil⟩ := ret_ok h₈
      subst hcert
      have hcreated := newOrder_ok hnew
      refine ⟨csr, orderUrl, o, o', c₁, c₂, c₃, c₄, es₀ ++ (esNew ++ esAuthz), es₁, es₂, es₃,
        of_mapError_ok hcsr, rfl, ?_, ?_, ?_, hpoll, ?_, hfinal, not_not.mp hvalid, certUrl,
          hcertUrl, hdownload⟩
      · rw [hes₀, hes₁, hes₂, hes₃, hes₄, hes₅, hes₆, hes₇, hnil, hnilUrl, hnilCsr]
        simp
      · intro e he
        rcases List.mem_append.mp he with he | he
        · exact (says_ensureAccount accountPayload_csr dir a).of_ok haccount e he
        · rcases List.mem_append.mp he with he | he
          · exact (says_newOrder dir hostname a.newOrder).of_ok hnew e he
          · exact (says_validateAll a.authz 0 order.authorizations).of_ok hauthz e he
      · obtain ⟨created, hmem, hnamed⟩ := hcreated
        exact ⟨created, by simp [hmem], hnamed⟩
      · tauto

section
variable {dir : AcmeDirectory} {hostname : String} {a : IssueAnswers} {c c' : Client} {cert : IssuedCert}
  {log : List Exchange}

theorem not_finalized_of_valid (h : issueOnce dir hostname a c = (.ok cert, c', log))
    (hsettled : settledStatus a.poll = some "valid") : ¬ KeyFinalized dir a cert log := by
  obtain ⟨csr, orderUrl, o, o', c₁, c₂, c₃, c₄, before, es₁, es₂, es₃, hcsr, hkey, hlog, hbefore, hcreated,
    hpoll, hstatus, hfinal, hvalid, certUrl, hurl, hdownload⟩ := issueOnce_ok h
  have hovalid : o.status = "valid" := Option.some.inj ((pollOrder_settled hpoll).symm.trans hsettled)
  -- nothing between the order and the download carries a CSR
  have hnothing : es₂ = [] := by
    unfold finalizeIfReady at hfinal
    rw [if_neg (by rw [hovalid]; decide)] at hfinal
    exact (ret_ok hfinal).2.2
  have hnone : ∀ e ∈ log, NoCsr e := by
    intro e he
    rw [hlog, hnothing] at he
    rcases List.mem_append.mp he with he | he
    · exact hbefore e he
    · rcases List.mem_append.mp he with he | he
      · exact (says_pollOrder orderUrl settled a.poll).of_ok hpoll e he
      · exact (says_downloadCertificate certUrl a.download).of_ok hdownload e he
  intro hfinalized
  obtain ⟨csr', _, _, _, pre, mid, mid', post, ready, finalized, seen, downloaded, -, -, hsplit,
    -, -, hsent, -⟩ :=
    hfinalized
  have hmem : finalized ∈ log := by
    rw [hsplit]
    simp
  have hget := hnone finalized hmem _ hsent.2.1
  exact absurd hget nofun

theorem finalized_of_not_valid (h : issueOnce dir hostname a c = (.ok cert, c', log))
    (hsettled : settledStatus a.poll ≠ some "valid") : KeyFinalized dir a cert log := by
  obtain ⟨csr, orderUrl, o, o', c₁, c₂, c₃, c₄, before, es₁, es₂, es₃, hcsr, hkey, hlog, hbefore, hcreated,
    hpoll, hstatus, hfinal, hvalid, certUrl, hurl, hdownload⟩ := issueOnce_ok h
  rw [pollOrder_settled hpoll] at hsettled
  obtain ⟨hdone, esReady, respReady, jsonReady, hes₁, hjsonReady, hparseReady⟩ := pollOrder_ok hpoll
  have hready : o.status = "ready" := by
    rcases hstatus with hs | hs | hs
    · exact hs
    · rw [settled, hs] at hdone
      exact absurd hdone (by decide)
    · exact absurd (congrArg some hs) hsettled
  unfold finalizeIfReady at hfinal
  rw [if_pos hready] at hfinal
  obtain ⟨_, _, esFin, esSeen, hfinalize, hagain, hes₂⟩ := of_bind_ok hfinal
  obtain ⟨esFin', respFin, hesFin, hsuccess⟩ := finalize_ok hfinalize
  obtain ⟨-, esSeen', respSeen, jsonSeen, hesSeen, hjsonSeen, hparseSeen⟩ := pollOrder_ok hagain
  obtain ⟨esDown, respDown, hesDown, hdownSuccess, htext⟩ := downloadCertificate_ok hdownload
  obtain ⟨created, hmem, hnamed⟩ := hcreated
  refine ⟨csr, orderUrl, o, o', before ++ esReady, esFin', esSeen', esDown,
    ⟨orderUrl, none, respReady⟩, ⟨o.finalize, some (csrPayload csr), respFin⟩, ⟨orderUrl, none, respSeen⟩,
    ⟨certUrl, none, respDown⟩, hcsr, hkey, ?_,
    ⟨created, by simp [hmem], hnamed⟩, ⟨rfl, ⟨jsonReady, hjsonReady, hparseReady⟩, hready⟩,
    ⟨rfl, rfl, hsuccess⟩, ⟨rfl, ⟨jsonSeen, hjsonSeen, hparseSeen⟩, hvalid, hurl⟩, hdownSuccess, htext⟩
  rw [hlog, hes₁, hes₂, hesFin, hesSeen, hesDown]
  simp

/-- A certificate comes with the key of its CSR exactly where the first order that has settled is not
valid already: only then the CSR of this run is submitted at all. -/
theorem issued_for_returned_key_iff (h : issueOnce dir hostname a c = (.ok cert, c', log)) :
    KeyFinalized dir a cert log ↔ settledStatus a.poll ≠ some "valid" := by
  constructor
  · intro hfinalized hsettled
    exact not_finalized_of_valid h hsettled hfinalized
  · exact finalized_of_not_valid h

end

def orderJson (status : String) : Json :=
  .obj [("status", .str status), ("authorizations", .arr []), ("finalize", .str "https://ca.test/finalize/1"),
    ("certificate", .str "https://ca.test/cert/1")]

def sampleAttempt (json : Json) : Attempt :=
  ⟨.ok (some "nonce"), .ok (), .ok ⟨200, none, some "https://ca.test/order/1", .ok json, .ok "chain"⟩⟩

def samplePost (json : Json) : PostAnswers := ⟨sampleAttempt json, sampleAttempt json⟩

/-- An order without authorizations that is polled once before and once after it is finalised. -/
def sampleAnswers (first : String) : IssueAnswers :=
  { binding := none, register := samplePost .null, csr := .ok ⟨"key", "csr", [1, 2, 3]⟩,
    newOrder := samplePost (orderJson "pending"),
    authz := fun _ => ⟨samplePost .null, .ok (), none, none, samplePost .null, []⟩,
    poll := [⟨samplePost (orderJson first), false⟩], finalize := samplePost .null,
    pollAgain := [⟨samplePost (orderJson "valid"), false⟩], download := samplePost .null }

def sampleDirectory : AcmeDirectory :=
  ⟨"https://ca.test/nonce", "https://ca.test/account", "https://ca.test/new-order"⟩

theorem issued_for_returned_key_iff_sample :
    ∃ c' log, issueOnce sampleDirectory "a.test" (sampleAnswers "ready") ⟨none, some "https://ca.test/acct/1"⟩
        = (.ok ⟨"chain", "key"⟩, c', log) ∧
      (KeyFinalized sampleDirectory (sampleAnswers "ready") ⟨"chain", "key"⟩ log ↔
        settledStatus (sampleAnswers "ready").poll ≠ some "valid") := by
  have hissued : ∃ c' log, issueOnce sampleDirectory "a.test" (sampleAnswers "ready")
      ⟨none, some "https://ca.test/acct/1"⟩ = (.ok ⟨"chain", "key"⟩, c', log) := ⟨_, _, rfl⟩
  obtain ⟨c', log, h⟩ := hissued
  exact ⟨c', log, h, issued_for_returned_key_iff h⟩

theorem valid_order_not_finalized :
    ¬ ∀ dir hostname a c cert c' log, issueOnce dir hostname a c = (.ok cert, c', log) →
      KeyFinalized dir a cert log := by
  intro hall
  have hissued : ∃ c' log, issueOnce sampleDirectory "a.test" (sampleAnswers "valid")
      ⟨none, some "https://ca.test/acct/1"⟩ = (.ok ⟨"chain", "key"⟩, c', log) := ⟨_, _, rfl⟩
  obtain ⟨c', log, h⟩ := hissued
  exact not_finalized_of_valid h rfl (hall _ _ _ _ _ _ _ h)

end CtAgent.Acme
