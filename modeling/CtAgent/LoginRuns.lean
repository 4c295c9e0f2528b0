import CtAgent.Lib.History
import CtAgent.Login

/-! Any number of resolves over one stored login: the mutex they refresh under, the answers of the IdP,
the refresh tokens it rotates, and a `ct-agent login` of another process in between (login.rs). -/
namespace CtAgent.Login
open CtAgent.Lib

/-- A resolve: in line for the lock, behind its request with the login it read and the clock from before,
or over. A caller that is dropped in line or behind its request gives the lock back. -/
inductive Phase
  | waiting
  | refreshing (stored : StoredToken) (refreshToken : String) (since : ℕ)
  | done (r : Except ResolveError String)
  | cancelled

/-- `lock` is the holder of the mutex. The last three are for the statements: the refresh tokens issued so
far, those an answer that was saved has replaced, and how many answers were saved. -/
structure State where
  now : ℕ
  store : Except String StoredToken
  resolves : List Phase := []
  lock : Option ℕ := none
  issued : List String
  replaced : List String := []
  saved : ℕ := 0

inductive Event
  | tick (d : ℕ)
  | resolve (disk : Disk)
  | lock (i : ℕ)
  | answer (i : ℕ) (a : TokenAnswer) (persist : Except String Unit)
  | cancel (i : ℕ)
  | login (tok : TokenResponse) (issuer clientId : String)

/-- The refresh token an answer brings. -/
def TokenResponse.issues (tok : TokenResponse) : Option String := tok.refreshToken.filter (· != "")

def State.step (f : Lookup) (path : String) (s : State) : Event → Option State
  | .tick d => some { s with now := s.now + d }
  | .resolve disk =>
    match resolveBegin f disk with
    | .finished r => some { s with resolves := s.resolves ++ [.done r] }
    | .locking _ => some { s with resolves := s.resolves ++ [.waiting] }
  | .lock i =>
    match s.resolves[i]?, s.lock with
    | some .waiting, none =>
      -- up to the request there is no await: reading and deciding are one step
      match resolveLocked path s.store s.now with
      | .finished r _ => some { s with resolves := s.resolves.set i (.done r) }
      | .refreshing stored refreshToken =>
        some { s with resolves := s.resolves.set i (.refreshing stored refreshToken s.now), lock := some i }
    | _, _ => none
  | .answer i a persist =>
    match s.resolves[i]? with
    | some (.refreshing stored refreshToken since) =>
      let r := resolveAnswered path stored since a persist
      let s := { s with resolves := s.resolves.set i (.done r.1), lock := none }
      match r.2.1 with
      | none => some s
      | some next =>
        some { s with
          store := .ok next
          issued := next.refreshToken.toList ++ s.issued
          replaced := if next.refreshToken = some refreshToken then s.replaced else refreshToken :: s.replaced
          saved := s.saved + 1 }
    | _ => none
  | .cancel i =>
    match s.resolves[i]? with
    | some .waiting => some { s with resolves := s.resolves.set i .cancelled }
    | some (.refreshing _ _ _) => some { s with resolves := s.resolves.set i .cancelled, lock := none }
    | _ => none
  | .login tok issuer clientId =>
    some { s with
      store := .ok (.fromTokenResponse tok issuer clientId s.now)
      issued := tok.issues.toList ++ s.issued }

/-- Before any resolve of the process. -/
def State.start (now : ℕ) (store : Except String StoredToken) : State where
  now := now
  store := store
  issued :=
    match store with
    | .ok stored => stored.refreshToken.toList
    | .error _ => []

/-- The IdP issues refresh tokens nobody has had, or leaves the presented one in force. -/
def State.issuesNew (s : State) : Event → Bool
  | .answer i a _ =>
    match s.resolves[i]?, refreshAccessToken a with
    | some (.refreshing _ refreshToken _), .ok tok =>
      tok.issues.all (fun t => t == refreshToken || !s.issued.contains t)
    | _, _ => true
  | .login tok _ _ => tok.issues.all (fun t => !s.issued.contains t)
  | _ => true

theorem resolveAnswered_saved {path : String} {stored next : StoredToken} {since : ℕ} {a : TokenAnswer}
    {persist : Except String Unit} (h : (resolveAnswered path stored since a persist).2.1 = some next) :
    ∃ tok, refreshAccessToken a = .ok tok ∧ next = stored.afterRefresh tok since := by
  unfold resolveAnswered at h
  cases ha : refreshAccessToken a with
  | error e => cases e <;> simp [ha] at h
  | ok tok =>
    rw [ha] at h
    cases persist with
    | error e => cases h
    | ok u => exact ⟨tok, rfl, (Option.some.inj h).symm⟩

/-- The refresh token behind a refresh is the one the answer brought, or the stored one. -/
theorem StoredToken.afterRefresh_refreshToken (stored : StoredToken) (tok : TokenResponse) (now : ℕ) :
    (stored.afterRefresh tok now).refreshToken = tok.issues.or stored.refreshToken := by
  unfold StoredToken.afterRefresh StoredToken.fromTokenResponse TokenResponse.issues
  cases ht : tok.refreshToken with
  | none => rfl
  | some t => by_cases he : t = "" <;> simp [he, Option.filter]

theorem StoredToken.usable_eq {stored : StoredToken} {now : ℕ} {t : String}
    (h : stored.usableRefreshToken now = some t) : stored.refreshToken = some t ∧ t ≠ "" := by
  unfold StoredToken.usableRefreshToken at h
  rw [Option.filter_eq_some_iff, Option.filter_eq_some_iff] at h
  exact ⟨h.1.1, by simpa using h.1.2⟩

/-- A request goes out only for a stale login with a usable refresh token. -/
theorem resolveLocked_refreshing {path : String} {read : Except String StoredToken} {now : ℕ}
    {stored : StoredToken} {t : String} (h : resolveLocked path read now = .refreshing stored t) :
    read = .ok stored ∧ stored.isStale now = true ∧ stored.usableRefreshToken now = some t := by
  unfold resolveLocked at h
  cases read with
  | error e => cases h
  | ok stored' =>
    dsimp only at h
    split at h
    · cases h
    · rename_i hstale
      split at h
      · rename_i t' hu
        cases h
        exact ⟨rfl, by simpa using hstale, hu⟩
      · cases h

/-- The steps. -/
inductive State.Step (path : String) (s : State) : Event → State → Prop
  | tick (d : ℕ) : s.Step path (.tick d) { s with now := s.now + d }
  | began (disk : Disk) (p : Phase) (hp : ∀ stored t since, p ≠ .refreshing stored t since) :
    s.Step path (.resolve disk) { s with resolves := s.resolves ++ [p] }
  | finished (i : ℕ) (r : Except ResolveError String) :
    s.Step path (.lock i) { s with resolves := s.resolves.set i (.done r) }
  | sent (i : ℕ) (stored : StoredToken) (t : String) (hfree : s.lock = none)
      (hstore : s.store = .ok stored) (hstale : stored.isStale s.now = true)
      (husable : stored.usableRefreshToken s.now = some t) :
    s.Step path (.lock i) { s with resolves := s.resolves.set i (.refreshing stored t s.now), lock := some i }
  | unsaved (i : ℕ) (a : TokenAnswer) (persist : Except String Unit) (stored : StoredToken)
    (t : String) (since : ℕ)
      (r : Except ResolveError String) (hp : s.resolves[i]? = some (.refreshing stored t since)) :
    s.Step path (.answer i a persist) { s with resolves := s.resolves.set i (.done r), lock := none }
  | saved (i : ℕ) (a : TokenAnswer) (persist : Except String Unit) (stored : StoredToken)
    (t : String) (since : ℕ)
      (r : Except ResolveError String) (tok : TokenResponse)
      (hp : s.resolves[i]? = some (.refreshing stored t since)) (ha : refreshAccessToken a = .ok tok) :
    s.Step path (.answer i a persist) { s with
      resolves := s.resolves.set i (.done r)
      lock := none
      store := .ok (stored.afterRefresh tok since)
      issued := (stored.afterRefresh tok since).refreshToken.toList ++ s.issued
      replaced :=
        if (stored.afterRefresh tok since).refreshToken = some t then s.replaced else t :: s.replaced
      saved := s.saved + 1 }
  | left (i : ℕ) : s.Step path (.cancel i) { s with resolves := s.resolves.set i .cancelled }
  | dropped (i : ℕ) (stored : StoredToken) (t : String) (since : ℕ)
      (hp : s.resolves[i]? = some (.refreshing stored t since)) :
    s.Step path (.cancel i) { s with resolves := s.resolves.set i .cancelled, lock := none }
  | login (tok : TokenResponse) (issuer clientId : String) : s.Step path (.login tok issuer clientId) { s with
      store := .ok (.fromTokenResponse tok issuer clientId s.now)
      issued := tok.issues.toList ++ s.issued }

theorem State.step_cases {f : Lookup} {path : String} {s t : State} {e : Event}
    (h : s.step f path e = some t) : s.Step path e t := by
  cases e with
  | tick d =>
    cases h
    exact .tick d
  | login tok issuer clientId =>
    cases h
    exact .login tok issuer clientId
  | resolve disk =>
    simp only [State.step] at h
    split at h
    · cases h
      exact .began disk _ (by simp)
    · cases h
      exact .began disk _ (by simp)
  | lock i =>
    simp only [State.step] at h
    split at h
    · rename_i hfree
      split at h
      · cases h
        exact .finished i _
      · rename_i stored t hl
        cases h
        obtain ⟨hstore, hstale, husable⟩ := resolveLocked_refreshing hl
        exact .sent i stored t hfree hstore hstale husable
    · cases h
  | answer i a persist =>
    simp only [State.step] at h
    split at h
    · rename_i stored t since hp
      split at h
      · cases h
        exact .unsaved i a persist stored t since _ hp
      · rename_i next hnext
        obtain ⟨tok, ha, rfl⟩ := resolveAnswered_saved hnext
        cases h
        exact .saved i a persist stored t since _ tok hp ha
    · cases h
  | cancel i =>
    simp only [State.step] at h
    split at h
    · cases h
      exact .left i
    · rename_i stored t since hp
      cases h
      exact .dropped i stored t since hp
    · cases h

/-- Only the holder of the lock is behind a request. -/
def Exclusive (s : State) : Prop :=
  ∀ i stored t since, s.resolves[i]? = some (.refreshing stored t since) → s.lock = some i

/-- A change of one resolve to one that is not in flight. -/
theorem flight_of_set {resolves : List Phase} {i j : ℕ} {p : Phase}
    (hp : ∀ stored t since, p ≠ .refreshing stored t since) {stored : StoredToken} {t : String} {since : ℕ}
    (hj : (resolves.set i p)[j]? = some (.refreshing stored t since)) :
    j ≠ i ∧ resolves[j]? = some (.refreshing stored t since) := by
  rw [List.getElem?_set] at hj
  split at hj
  · split at hj
    · exact absurd (Option.some.inj hj) (hp stored t since)
    · cases hj
  · rename_i hne
    exact ⟨fun he => hne he.symm, hj⟩

/-- A step leaves in flight what was, or sends one request. -/
theorem State.Step.flight {path : String} {s t : State} {e : Event} (h : s.Step path e t) {j : ℕ}
    {stored : StoredToken} {token : String} {since : ℕ}
    (hj : t.resolves[j]? = some (.refreshing stored token since)) :
    s.resolves[j]? = some (.refreshing stored token since) ∨
      e = .lock j ∧ s.lock = none ∧ t.lock = some j ∧ since = s.now ∧ t.store = s.store ∧
        s.store = .ok stored ∧
        stored.isStale s.now = true ∧ stored.usableRefreshToken s.now = some token := by
  cases h with
  | tick d => exact .inl hj
  | login tok issuer clientId => exact .inl hj
  | began disk p hp =>
    rw [List.getElem?_append] at hj
    split at hj
    · exact .inl hj
    · simp only [List.getElem?_singleton, Option.ite_none_right_eq_some, Option.some.injEq] at hj
      exact absurd hj.2 (hp stored token since)
  | sent i stored' t' hfree hstore hstale husable =>
    rw [List.getElem?_set] at hj
    split at hj
    · rename_i hij
      obtain ⟨-, hj⟩ := Option.ite_none_right_eq_some.mp hj
      cases hj
      exact .inr ⟨congrArg Event.lock hij, hfree, congrArg some hij, rfl, rfl, hstore, hstale, husable⟩
    · exact .inl hj
  | finished i r | left i => exact .inl (flight_of_set (by simp) hj).2
  | unsaved i a persist stored' t' since' r hp | dropped i stored' t' since' hp =>
    exact .inl (flight_of_set (by simp) hj).2
  | saved i a persist stored' t' since' r tok hp ha => exact .inl (flight_of_set (by simp) hj).2

theorem Exclusive.step {f : Lookup} {path : String} {s t : State} {e : Event} (h : Exclusive s)
    (ht : s.step f path e = some t) : Exclusive t := by
  have hstep := State.step_cases ht
  intro j stored token since hj
  -- the end of the one in flight leaves none
  have hnone (i : ℕ) (stored' : StoredToken) (token' : String) (since' : ℕ) (p : Phase)
      (hi : s.resolves[i]? = some (.refreshing stored' token' since'))
      (hp : ∀ stored t since, p ≠ .refreshing stored t since)
      (hset : (s.resolves.set i p)[j]? = some (.refreshing stored token since)) : False := by
    obtain ⟨hne, hj⟩ := flight_of_set hp hset
    have hlock := h j stored token since hj
    rw [h i stored' token' since' hi] at hlock
    exact hne (Option.some.inj hlock).symm
  rcases hstep.flight hj with hold | ⟨-, -, hlock, -⟩
  · have hlock := h j stored token since hold
    cases hstep with
    | unsaved i a persist stored' t' since' r hp =>
      exact (hnone i stored' t' since' _ hp (by simp) hj).elim
    | saved i a persist stored' t' since' r tok hp ha =>
      exact (hnone i stored' t' since' _ hp (by simp) hj).elim
    | dropped i stored' t' since' hp => exact (hnone i stored' t' since' _ hp (by simp) hj).elim
    | sent i stored' t' hfree hstore hstale husable =>
      rw [hfree] at hlock
      cases hlock
    | _ => exact hlock
  · exact hlock

theorem Exclusive.start (now : ℕ) (store : Except String StoredToken) : Exclusive (State.start now store) := by
  intro i stored t since h
  simp [State.start] at h

/-- What is stored and what is in flight was issued and is not replaced. -/
structure Inv (s : State) : Prop where
  exclusive : Exclusive s
  stored : ∀ stored t, s.store = .ok stored → stored.refreshToken = some t → t ≠ "" →
    t ∈ s.issued ∧ t ∉ s.replaced
  flight : ∀ (i : ℕ) stored t since, s.resolves[i]? = some (.refreshing stored t since) →
    stored.refreshToken = some t ∧ t ≠ "" ∧ t ∈ s.issued ∧ t ∉ s.replaced
  replaced : ∀ t ∈ s.replaced, t ∈ s.issued

theorem Inv.start (now : ℕ) (store : Except String StoredToken) : Inv (State.start now store) where
  exclusive := .start now store
  stored stored t hs ht _ := by
    refine ⟨?_, by simp [State.start]⟩
    change store = .ok stored at hs
    subst hs
    simp [State.start, ht]
  flight i stored t since h := by
    simp [State.start] at h
  replaced t ht := by
    simp [State.start] at ht

/-- What a request presents is what is stored. -/
theorem Inv.presents {s : State} (h : Inv s) {stored : StoredToken} {t : String} (hs : s.store = .ok stored)
    (husable : stored.usableRefreshToken s.now = some t) :
    stored.refreshToken = some t ∧ t ≠ "" ∧ t ∈ s.issued ∧ t ∉ s.replaced := by
  obtain ⟨htok, hne⟩ := StoredToken.usable_eq husable
  obtain ⟨hin, hout⟩ := h.stored stored t hs htok hne
  exact ⟨htok, hne, hin, hout⟩

theorem Inv.step {f : Lookup} {path : String} {s t : State} {e : Event} (h : Inv s)
    (hnew : s.issuesNew e = true)
    (ht : s.step f path e = some t) : Inv t := by
  have hstep := State.step_cases ht
  have hexclusive : Exclusive t := h.exclusive.step ht
  have hflight (j : ℕ) (stored : StoredToken) (token : String) (since : ℕ)
      (hj : t.resolves[j]? = some (.refreshing stored token since)) :
      stored.refreshToken = some token ∧ token ≠ "" ∧ token ∈ s.issued ∧ token ∉ s.replaced := by
    rcases hstep.flight hj with hold | ⟨-, -, -, -, -, hs, -, husable⟩
    · exact h.flight j stored token since hold
    · exact h.presents hs husable
  cases hstep with
  | saved i a persist stored t since r tok hp ha =>
    obtain ⟨htok, hne, hin, hout⟩ := h.flight i stored t since hp
    have hnext := stored.afterRefresh_refreshToken tok since
    rw [htok] at hnext
    refine ⟨hexclusive, ?_, ?_, ?_⟩
    · intro stored' x hs hx hxne
      obtain rfl := Except.ok.inj hs
      refine ⟨by simp [hx], ?_⟩
      by_cases hsame : (stored.afterRefresh tok since).refreshToken = some t
      · obtain rfl : x = t := Option.some.inj (hx.symm.trans hsame)
        rwa [if_pos hsame]
      · -- a new one: nobody has had it
        rw [if_neg hsame]
        cases hi : tok.issues with
        | none =>
          rw [hi] at hnext
          exact absurd hnext hsame
        | some y =>
          rw [hi] at hnext
          obtain rfl : x = y := Option.some.inj (hx.symm.trans hnext)
          simp only [State.issuesNew, hp, ha, hi, Option.all_some, Bool.or_eq_true, beq_iff_eq,
            Bool.not_eq_true', List.contains_eq_mem, decide_eq_false_iff_not] at hnew
          have hxt : x ≠ t := by
            rintro rfl
            exact hsame hx
          have hunseen : x ∉ s.issued := hnew.resolve_left hxt
          rw [List.mem_cons, not_or]
          exact ⟨hxt, fun hr => hunseen (h.replaced x hr)⟩
    · intro j stored' t' since' hj
      obtain ⟨hne', hj'⟩ := flight_of_set (by simp) hj
      have hlock := h.exclusive j stored' t' since' hj'
      rw [h.exclusive i stored t since hp] at hlock
      exact absurd (Option.some.inj hlock).symm hne'
    · intro x hx
      rw [List.mem_append]
      right
      split at hx
      · exact h.replaced x hx
      · rcases List.mem_cons.mp hx with rfl | hx
        · exact hin
        · exact h.replaced x hx
  | login tok issuer clientId =>
    have hkeep (x : String) (hx : x ∈ s.issued) : x ∈ tok.issues.toList ++ s.issued :=
      List.mem_append.mpr (.inr hx)
    refine ⟨hexclusive, ?_, ?_, ?_⟩
    · intro stored' x hs hx hxne
      obtain rfl := Except.ok.inj hs
      have hissues : tok.issues = some x := by
        unfold TokenResponse.issues
        rw [show tok.refreshToken = some x from hx]
        simp [hxne]
      simp only [State.issuesNew, hissues, Option.all_some, Bool.not_eq_true', List.contains_eq_mem,
        decide_eq_false_iff_not] at hnew
      exact ⟨by simp [hissues], fun hr => hnew (h.replaced x hr)⟩
    · intro j stored' t' since' hj
      obtain ⟨htok, hne, hin, hout⟩ := hflight j stored' t' since' hj
      exact ⟨htok, hne, hkeep t' hin, hout⟩
    · intro x hx
      exact hkeep x (h.replaced x hx)
  | _ => exact ⟨hexclusive, h.stored, hflight, h.replaced⟩

/-- However many resolves run beside each other and whenever somebody logs in again: no request presents a
refresh token that a saved answer has replaced, and while it is in flight there is no other one. -/
theorem no_replaced_token_presented (f : Lookup) (path : String) (now : ℕ) (store : Except String StoredToken)
    (es : List Event) (s t : State) (i : ℕ) (stored : StoredToken) (token : String) (since : ℕ)
    (hrun : run (guarded (State.step f path) State.issuesNew) (State.start now store) es = some s)
    (ht : s.step f path (.lock i) = some t) (hsent : t.resolves[i]? = some (.refreshing stored token since)) :
    token ∉ s.replaced ∧
      ∀ j stored' token' since', t.resolves[j]? = some (.refreshing stored' token' since') → j = i := by
  have hinv : Inv s := by
    refine run_invariant _ Inv ?_ es _ s (Inv.start now store) hrun
    intro s e t hs ht
    obtain ⟨hnew, ht⟩ := guarded_eq_some.mp ht
    exact hs.step hnew ht
  have hexclusive : Exclusive t := hinv.exclusive.step ht
  refine ⟨?_, ?_⟩
  · rcases (State.step_cases ht).flight hsent with hold | ⟨-, -, -, -, -, hs, -, husable⟩
    · exact (hinv.flight i stored token since hold).2.2.2
    · exact (hinv.presents hs husable).2.2.2
  · intro j stored' token' since' hj
    have hlock := hexclusive j stored' token' since' hj
    rw [hexclusive i stored token since hsent] at hlock
    exact (Option.some.inj hlock).symm

/-- An IdP that answers the refresh of a rotating token once, and a second resolve that comes later. -/
def rotated : TokenResponse := ⟨"new", some "r1", some 300, none⟩

def staleLogin : StoredToken := ⟨"old", some "r0", some 10, none, "https://idp", "ct-agent-cli"⟩

def noDisk : Disk := ⟨fun _ => .error "no such file", fun _ => .error "no such file"⟩

def home : Lookup := fun key => if key = "HOME" then some "/root" else none

theorem no_replaced_token_presented_after_one :
    ("r1" ∉ ["r0"]) ∧ ∀ j stored' token' since',
      ([.done (.ok "new"), .refreshing (staleLogin.afterRefresh rotated 100) "r1" 400] : List Phase)[j]? =
        some (.refreshing stored' token' since') → j = 1 :=
  no_replaced_token_presented home "/root/.ct-agent/oidc-token.json" 100 (.ok staleLogin)
    [.resolve noDisk, .resolve noDisk, .lock 0,
      .answer 0 (.answered ⟨200, "200 OK"⟩ (.ok rotated) (.error "")) (.ok ()),
      .tick 300] _ _ 1 _ "r1" 400 rfl rfl rfl

def Event.isLogin : Event → Bool
  | .login _ _ _ => true
  | _ => false

/-- The stored token is not stale and no login comes. -/
def State.holdsFresh (s : State) (e : Event) : Bool :=
  s.store.toOption.any (fun stored => !stored.isStale s.now) && !e.isLogin

/-- Since an answer was saved: its login is stored, no further answer was saved, and no request is in
flight. -/
structure Served (saved u : State) : Prop where
  store : u.store = saved.store
  count : u.saved = saved.saved
  idle : ∀ (i : ℕ) stored token since, u.resolves[i]? ≠ some (.refreshing stored token since)

/-- Behind the answer that is saved nothing is in flight. -/
theorem served_of_answer {f : Lookup} {path : String} {s t : State} {i : ℕ} {a : TokenAnswer}
    {persist : Except String Unit} (hexclusive : Exclusive s)
    (ht : s.step f path (.answer i a persist) = some t) :
    Served t t := by
  refine ⟨rfl, rfl, fun j stored token since hj => ?_⟩
  have hsettled {resolve : Phase} {r : Except ResolveError String} {stored' : StoredToken} {token' : String}
      {since' : ℕ} (hp : s.resolves[i]? = some (.refreshing stored' token' since'))
        (hresolve : resolve = .done r)
      (hset : (s.resolves.set i resolve)[j]? = some (.refreshing stored token since)) : False := by
    rw [hresolve] at hset
    obtain ⟨hne, hold⟩ := flight_of_set (by simp) hset
    have hlock := hexclusive j stored token since hold
    rw [hexclusive i stored' token' since' hp] at hlock
    exact hne (Option.some.inj hlock).symm
  cases State.step_cases ht with
  | unsaved _ _ _ stored' token' since' r hp => exact hsettled hp rfl hj
  | saved _ _ _ stored' token' since' r tok hp ha => exact hsettled hp rfl hj

theorem not_stale_of_holdsFresh {s : State} {e : Event} {stored : StoredToken} (h : s.holdsFresh e = true)
    (hs : s.store = .ok stored) : stored.isStale s.now = false := by
  unfold State.holdsFresh at h
  rw [hs] at h
  simpa [Except.toOption] using (Bool.and_eq_true_iff.mp h).1

/-- Over a fresh login no request goes out, and with none in flight nothing is saved. -/
theorem Served.step {f : Lookup} {path : String} {saved s t : State} {e : Event} (h : Served saved s)
    (hfresh : s.holdsFresh e = true) (ht : s.step f path e = some t) : Served saved t := by
  have hstep := State.step_cases ht
  have hidle (j : ℕ) (stored : StoredToken) (token : String) (since : ℕ) :
      t.resolves[j]? ≠ some (.refreshing stored token since) := by
    intro hj
    rcases hstep.flight hj with hold | ⟨-, -, -, -, -, hs, hstale, -⟩
    · exact h.idle j stored token since hold
    · rw [not_stale_of_holdsFresh hfresh hs] at hstale
      exact absurd hstale Bool.false_ne_true
  cases hstep with
  | unsaved i a persist stored token since r hp => exact absurd hp (h.idle i stored token since)
  | saved i a persist stored token since r tok hp ha => exact absurd hp (h.idle i stored token since)
  | login tok issuer clientId => simp [State.holdsFresh, Event.isLogin] at hfresh
  | _ => exact ⟨h.store, h.count, hidle⟩

/-- Over a fresh login a resolve that takes the lock is served from the store. -/
theorem lock_of_fresh {f : Lookup} {path : String} {s t : State} {j : ℕ} {stored : StoredToken}
    (hs : s.store = .ok stored) (hfresh : stored.isStale s.now = false)
    (ht : s.step f path (.lock j) = some t) :
    t = { s with resolves := s.resolves.set j (.done (.ok stored.accessToken)) } := by
  simp only [State.step] at ht
  split at ht
  · simp only [resolveLocked, hs, hfresh, Bool.not_false, if_true] at ht
    rw [← Option.some.inj ht, hs]
  · cases ht

/-- However many resolves come: from the answer that is saved on, as long as its token is not stale and no
login comes, no further request goes out and no further answer is saved, and each resolve that takes the
lock is served from the store. -/
theorem one_refresh_a_window (f : Lookup) (path : String) (now : ℕ) (store : Except String StoredToken)
    (es es' : List Event) (s t u : State) (i : ℕ) (a : TokenAnswer) (persist : Except String Unit)
    (hrun : run (State.step f path) (State.start now store) es = some s)
    (hanswer : s.step f path (.answer i a persist) = some t) (hsaved : t.saved = s.saved + 1)
    (hwindow : run (guarded (State.step f path) State.holdsFresh) t es' = some u) :
    u.saved = s.saved + 1 ∧ u.store = t.store ∧
      (∀ (j : ℕ) stored token since, u.resolves[j]? ≠ some (.refreshing stored token since)) ∧
      ∀ stored j v, u.store = .ok stored → stored.isStale u.now = false → u.step f path (.lock j) = some v →
        v = { u with resolves := u.resolves.set j (.done (.ok stored.accessToken)) } := by
  have hexclusive : Exclusive s :=
    run_invariant _ Exclusive (fun s e t hs ht => hs.step ht) es _ s (.start now store) hrun
  have hserved : Served t u := by
    refine run_invariant _ (Served t) ?_ es' t u (served_of_answer hexclusive hanswer) hwindow
    intro s' e t' hs' ht'
    obtain ⟨hfresh, ht'⟩ := guarded_eq_some.mp ht'
    exact hs'.step hfresh ht'
  refine ⟨hserved.count.trans hsaved, hserved.store, hserved.idle, ?_⟩
  intro stored j v hs hfresh hv
  exact lock_of_fresh hs hfresh hv

theorem one_refresh_a_window_of_two : ∃ u : State, u.resolves.length = 2 ∧ u.saved = 1 ∧
    u.store = .ok (staleLogin.afterRefresh rotated 100) := by
  have h := one_refresh_a_window home "/root/.ct-agent/oidc-token.json" 100 (.ok staleLogin)
    [.resolve noDisk, .resolve noDisk, .lock 0] [.lock 1] _ _ _ 0
    (.answered ⟨200, "200 OK"⟩ (.ok rotated) (.error "")) (.ok ()) rfl rfl rfl rfl
  exact ⟨_, rfl, h.1, h.2.1⟩

end CtAgent.Login
