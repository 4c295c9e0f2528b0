import Mathlib.Tactic
import CtAgent.Login

/-! The loops of the login: the device-grant poll within its budget, the retried resolve, and the state a
probe reports beside what a resolve then does (login.rs). -/
namespace CtAgent.Login
open CtAgent.Lib

def Polled.isSlowDown : Polled → Bool
  | .slowDown => true
  | _ => false

section Poll
variable (polls : ℕ → Poll) (expiresIn backoff interval : ℕ)

/-- The interval before the `k`-th request: one back-off more for every `slow_down` so far. -/
def intervalAt (k : ℕ) : ℕ :=
  interval + backoff * ((List.range k).filter (fun j => (polled (polls j).answer).isSlowDown)).length

/-- The time that has passed when the `k`-th turn begins. -/
def elapsedAt : ℕ → ℕ
  | 0 => 0
  | k+1 => elapsedAt k + intervalAt polls backoff interval k + (polls k).overslept + (polls k).took

/-- When the `k`-th request goes out. -/
def sentAt (k : ℕ) : ℕ := elapsedAt polls backoff interval k + intervalAt polls backoff interval k +
    (polls k).overslept

/-- The loop is in its `k`-th turn: every answer so far said to go on, within the budget. -/
def Reaches (k : ℕ) : Prop :=
  ∀ j < k, (∀ r, polled (polls j).answer ≠ .ended r) ∧ elapsedAt polls backoff interval j < expiresIn

/-- How the loop ends in its `k`-th turn. -/
def EndsAt (k : ℕ) (r : Except LoginError TokenResponse × List ℕ) : Prop :=
  Reaches polls expiresIn backoff interval k ∧
    (expiresIn ≤ elapsedAt polls backoff interval k ∧
        r = (.error .expiredToken, (List.range k).map (sentAt polls backoff interval)) ∨
      elapsedAt polls backoff interval k < expiresIn ∧ ∃ x, polled (polls k).answer = .ended x ∧
        r = (x, (List.range (k+1)).map (sentAt polls backoff interval)))

variable {polls expiresIn backoff interval}

theorem intervalAt_succ (k : ℕ) : intervalAt polls backoff interval (k+1) =
    intervalAt polls backoff interval k + if (polled (polls k).answer).isSlowDown then backoff else 0 := by
  unfold intervalAt
  rw [List.range_succ, List.filter_append, List.length_append]
  cases h : (polled (polls k).answer).isSlowDown with
  | true =>
    simp only [List.filter_singleton, h, cond_true, List.length_singleton, if_true]
    ring
  | false => simp [h]

theorem interval_le (k : ℕ) : interval ≤ intervalAt polls backoff interval k := Nat.le_add_right _ _

/-- Every turn takes at least the interval. -/
theorem mul_le_elapsedAt (k : ℕ) : k * interval ≤ elapsedAt polls backoff interval k := by
  induction k with
  | zero => simp
  | succ k ih =>
    have hle : interval ≤ intervalAt polls backoff interval k := interval_le k
    rw [elapsedAt, Nat.add_mul, Nat.one_mul]
    omega

theorem reaches_succ {k : ℕ} (hk : Reaches polls expiresIn backoff interval k)
    (hgo : ∀ r, polled (polls k).answer ≠ .ended r) (hin : elapsedAt polls backoff interval k < expiresIn) :
    Reaches polls expiresIn backoff interval (k+1) := by
  intro j hj
  rcases Nat.lt_succ_iff_lt_or_eq.mp hj with hj | rfl
  · exact hk j hj
  · exact ⟨hgo, hin⟩

/-- One turn, with what the loop carries in closed form. -/
theorem poll_succ (fuel k : ℕ) (hin : elapsedAt polls backoff interval k < expiresIn) :
    pollForTokenWithBackoff polls expiresIn backoff (fuel+1) k (elapsedAt polls backoff interval k)
        (intervalAt polls backoff interval k) =
      match polled (polls k).answer with
      | .ended x => some (x, [sentAt polls backoff interval k])
      | _ => (pollForTokenWithBackoff polls expiresIn backoff fuel (k+1)
          (elapsedAt polls backoff interval (k+1))
          (intervalAt polls backoff interval (k+1))).map (fun r =>
            (r.1, sentAt polls backoff interval k :: r.2)) := by
  have hnext : intervalAt polls backoff interval (k+1) = intervalAt polls backoff interval k +
      if (polled (polls k).answer).isSlowDown then backoff else 0 := intervalAt_succ k
  rw [pollForTokenWithBackoff, if_neg (Nat.not_le_of_lt hin)]
  cases hp : polled (polls k).answer with
  | ended x => rfl
  | pending =>
    rw [hp] at hnext
    rw [hnext]
    rfl
  | slowDown =>
    rw [hp] at hnext
    rw [hnext]
    rfl

/-- From the `k`-th turn on the loop ends as described, whatever it has gone through before. -/
theorem poll_from (fuel : ℕ) : ∀ (k : ℕ) (r : Except LoginError TokenResponse × List ℕ),
    Reaches polls expiresIn backoff interval k →
      pollForTokenWithBackoff polls expiresIn backoff fuel k (elapsedAt polls backoff interval k)
        (intervalAt polls backoff interval k) = some r →
        ∃ n, EndsAt polls expiresIn backoff interval n
          (r.1, (List.range k).map (sentAt polls backoff interval) ++ r.2) := by
  induction fuel with
  | zero =>
    intro k r _ h
    cases h
  | succ fuel ih =>
    intro k r hk h
    have hrange : (List.range (k+1)).map (sentAt polls backoff interval) =
        (List.range k).map (sentAt polls backoff interval) ++ [sentAt polls backoff interval k] := by
      rw [List.range_succ, List.map_append]
      rfl
    by_cases hin : elapsedAt polls backoff interval k < expiresIn
    · rw [poll_succ fuel k hin] at h
      have hgo (hp : ∀ x, polled (polls k).answer ≠ .ended x)
          (h : (pollForTokenWithBackoff polls expiresIn backoff fuel (k+1)
            (elapsedAt polls backoff interval (k+1))
            (intervalAt polls backoff interval (k+1))).map
              (fun r => (r.1, sentAt polls backoff interval k :: r.2)) = some r) :
          ∃ n, EndsAt polls expiresIn backoff interval n
            (r.1, (List.range k).map (sentAt polls backoff interval) ++ r.2) := by
        obtain ⟨r', hr', rfl⟩ := Option.map_eq_some_iff.mp h
        obtain ⟨n, hn⟩ := ih (k+1) r' (reaches_succ hk hp hin) hr'
        rw [hrange, List.append_assoc] at hn
        exact ⟨n, hn⟩
      cases hp : polled (polls k).answer with
      | ended x =>
        rw [hp] at h
        cases h
        exact ⟨k, hk, .inr ⟨hin, x, hp, by rw [hrange]⟩⟩
      | pending =>
        rw [hp] at h
        exact hgo (by simp [hp]) h
      | slowDown =>
        rw [hp] at h
        exact hgo (by simp [hp]) h
    · rw [pollForTokenWithBackoff, if_pos (Nat.le_of_not_lt hin)] at h
      cases h
      exact ⟨k, hk, .inl ⟨Nat.le_of_not_lt hin, by rw [List.append_nil]⟩⟩

/-- A loop that is still in its `k`-th turn has spent `k-1` intervals of the budget. -/
theorem Reaches.le {k : ℕ} (hk : Reaches polls expiresIn backoff interval k) (hpos : 0 < interval) :
    k ≤ expiresIn / interval + 1 := by
  cases k with
  | zero => exact Nat.zero_le _
  | succ k =>
    have hin := (hk k (Nat.lt_succ_self k)).2
    have hspent : k * interval ≤ elapsedAt polls backoff interval k := mul_le_elapsedAt k
    have : k ≤ expiresIn / interval := (Nat.le_div_iff_mul_le hpos).mpr (by omega)
    omega

/-- So many turns are enough. -/
theorem poll_some (hpos : 0 < interval) (fuel : ℕ) : ∀ k, Reaches polls expiresIn backoff interval k →
    expiresIn / interval + 2 ≤ fuel + k →
      ∃ r, pollForTokenWithBackoff polls expiresIn backoff fuel k (elapsedAt polls backoff interval k)
        (intervalAt polls backoff interval k) = some r := by
  induction fuel with
  | zero =>
    intro k hk hfuel
    have := hk.le hpos
    omega
  | succ fuel ih =>
    intro k hk hfuel
    by_cases hin : elapsedAt polls backoff interval k < expiresIn
    · rw [poll_succ fuel k hin]
      have hgo (hp : ∀ x, polled (polls k).answer ≠ .ended x) :
          ∃ r, (pollForTokenWithBackoff polls expiresIn backoff fuel (k+1)
            (elapsedAt polls backoff interval (k+1))
            (intervalAt polls backoff interval (k+1))).map
              (fun r => (r.1, sentAt polls backoff interval k :: r.2)) = some r := by
        obtain ⟨r, hr⟩ := ih (k+1) (reaches_succ hk hp hin) (by omega)
        exact ⟨_, by rw [hr, Option.map_some]⟩
      cases hp : polled (polls k).answer with
      | ended x => exact ⟨_, rfl⟩
      | pending => exact hgo (by simp [hp])
      | slowDown => exact hgo (by simp [hp])
    · exact ⟨_, by rw [pollForTokenWithBackoff, if_pos (Nat.le_of_not_lt hin)]⟩

/-- The loop ends in one turn only and in one way. -/
theorem EndsAt.unique {n m : ℕ} {r r' : Except LoginError TokenResponse × List ℕ}
    (h : EndsAt polls expiresIn backoff interval n r) (h' : EndsAt polls expiresIn backoff interval m r') :
    n = m ∧ r = r' := by
  have hlater {n m : ℕ} {r r' : Except LoginError TokenResponse × List ℕ}
      (h : EndsAt polls expiresIn backoff interval n r) (h' : EndsAt polls expiresIn backoff interval m r') :
      ¬ n < m := by
    intro hlt
    obtain ⟨hgo, hin⟩ := h'.1 n hlt
    rcases h.2 with ⟨hover, -⟩ | ⟨-, x, hx, -⟩
    · omega
    · exact hgo x hx
  obtain rfl : n = m := by
    have := hlater h h'
    have := hlater h' h
    omega
  refine ⟨rfl, ?_⟩
  rcases h.2 with ⟨hover, hr⟩ | ⟨hin, x, hx, hr⟩ <;> rcases h'.2 with ⟨hover', hr'⟩ | ⟨hin', x', hx', hr'⟩
  · rw [hr, hr']
  · omega
  · omega
  · rw [hx] at hx'
    cases hx'
    rw [hr, hr']

/-- Whatever the endpoint answers and however late, the poll ends, within `expires_in / interval + 1` turns:
with the first answer that is neither `authorization_pending` nor `slow_down`, or as expired in the first
turn the budget is used up. Between two requests lies the interval and one back-off for every `slow_down`
so far. -/
theorem poll_for_token_ends (polls : ℕ → Poll) (expiresIn backoff interval : ℕ) (hpos : 0 < interval) :
    ∃ n r, (∀ fuel, expiresIn / interval + 2 ≤ fuel →
        pollForTokenWithBackoff polls expiresIn backoff fuel 0 0 interval = some r) ∧
      EndsAt polls expiresIn backoff interval n r ∧ n ≤ expiresIn / interval + 1 ∧
      (∀ m r', EndsAt polls expiresIn backoff interval m r' → m = n ∧ r' = r) ∧
      ∀ k, sentAt polls backoff interval k + intervalAt polls backoff interval (k+1) ≤
        sentAt polls backoff interval (k+1) := by
  have hreaches : Reaches polls expiresIn backoff interval 0 := by
    intro j hj
    omega
  have hstart : intervalAt polls backoff interval 0 = interval := by simp [intervalAt]
  have hall (fuel : ℕ) (hfuel : expiresIn / interval + 2 ≤ fuel) :
      ∃ n r, pollForTokenWithBackoff polls expiresIn backoff fuel 0 0 interval = some r ∧
        EndsAt polls expiresIn backoff interval n r := by
    obtain ⟨r, hr⟩ := poll_some hpos fuel 0 hreaches hfuel
    obtain ⟨n, hn⟩ := poll_from fuel 0 r hreaches hr
    rw [hstart] at hr
    exact ⟨n, r, hr, hn⟩
  obtain ⟨n, r, -, hn⟩ := hall _ (Nat.le_refl _)
  refine ⟨n, r, ?_, hn, hn.1.le hpos, fun m r' hm => hm.unique hn, ?_⟩
  · intro fuel hfuel
    obtain ⟨m, r', hr', hm⟩ := hall fuel hfuel
    rw [hr', (hm.unique hn).2]
  · intro k
    unfold sentAt
    rw [elapsedAt]
    omega

end Poll

/-- An endpoint that asks for patience once. -/
theorem poll_for_token_ends_slow : ∃ n r, EndsAt (fun k => ⟨0, 1, if k = 0 then
    .answered ⟨400, "400 Bad Request"⟩ (.error "") (.ok ⟨"slow_down", none⟩) else .failed "reset"⟩)
      600 5 10 n r := by
  obtain ⟨n, r, -, h, -⟩ := poll_for_token_ends _ 600 5 10 (by decide)
  exact ⟨n, r, h⟩

section Retry
variable {results : ℕ → Except ResolveError String} {attempts base : ℕ}

/-- The sleep behind the `k`-th transient failure. -/
def delayAt (base : ℕ) : ℕ → ℕ
  | 0 => base
  | k+1 => min (base * 2^(k+1)) oidcRefreshRetryMax

theorem delayAt_succ (base k : ℕ) : delayAt base (k+1) = min (delayAt base k * 2) oidcRefreshRetryMax := by
  cases k with
  | zero => rfl
  | succ k =>
    have hpow : base * 2^(k+1+1) = base * 2^(k+1) * 2 := by rw [Nat.pow_succ, Nat.mul_assoc]
    rw [delayAt, delayAt, hpow]
    omega

/-- The first result that is not transient, behind the transient ones with their sleeps. -/
def Decisive (results : ℕ → Except ResolveError String) (k : ℕ) (r : Except String String) : Prop :=
  (∀ j < k, ∃ m, results j = .error (.transient m)) ∧
    ((∃ t, results k = .ok t ∧ r = .ok t) ∨ ∃ m, results k = .error (.definitive m) ∧ r = .error m)

/-- A decisive attempt is behind the transient ones. -/
theorem Decisive.behind {n k : ℕ} {r : Except String String} (h : Decisive results n r)
    (hpast : ∀ j < k, ∃ m, results j = .error (.transient m)) : k ≤ n := by
  by_contra hlt
  obtain ⟨m, hm⟩ := hpast n (Nat.not_le.mp hlt)
  rcases h.2 with ⟨t, ht, -⟩ | ⟨m', hm', -⟩
  · rw [hm] at ht
    cases ht
  · rw [hm] at hm'
    cases hm'

/-- The sleep behind an attempt that another one follows. -/
theorem delays_cons {k n : ℕ} (hn : k < n) : ((List.range n).drop k).map (delayAt base) =
    delayAt base k :: ((List.range n).drop (k+1)).map (delayAt base) := by
  rw [List.drop_eq_getElem_cons (by simpa using hn)]
  simp

/-- From one attempt on: the sleeps so far are those of the transient failures. -/
theorem retryFrom_spec (remaining : ℕ) : ∀ (k : ℕ) (last : String), k + remaining = attempts →
    (∀ j < k, ∃ m, results j = .error (.transient m)) → (0 < k → results (k-1) = .error (.transient last)) →
    0 < attempts →
      (∃ n r, n < attempts ∧ Decisive results n r ∧
        retryFrom results attempts remaining k (delayAt base (min k (attempts-1))) last =
          (r, ((List.range n).drop k).map (delayAt base))) ∨
      (∀ j < attempts, ∃ m, results j = .error (.transient m)) ∧
        ∃ m, results (attempts-1) = .error (.transient m) ∧
        retryFrom results attempts remaining k (delayAt base (min k (attempts-1))) last = (.error
         (m ++ " -- gave up after " ++ toString attempts ++
         " attempt(s). The stored login itself is still refreshable; this is an IdP/network problem, not a " ++
         "re-login problem"), ((List.range (attempts-1)).drop k).map (delayAt base)) := by
  induction remaining with
  | zero =>
    intro k last hk hpast hlast hpos
    obtain rfl : k = attempts := by omega
    refine .inr ⟨hpast, last, hlast hpos, ?_⟩
    have hdrop : (List.range (k-1)).drop k = [] := by simp
    rw [hdrop]
    rfl
  | succ remaining ih =>
    intro k last hk hpast hlast hpos
    have hmin : min k (attempts-1) = k := by omega
    have hempty : (List.range k).drop k = [] := by simp
    cases hr : results k with
    | ok t =>
      refine .inl ⟨k, .ok t, by omega, ⟨hpast, .inl ⟨t, hr, rfl⟩⟩, ?_⟩
      rw [retryFrom, hr, hempty]
      rfl
    | error e =>
      cases e with
      | definitive m =>
        refine .inl ⟨k, .error m, by omega, ⟨hpast, .inr ⟨m, hr, rfl⟩⟩, ?_⟩
        rw [retryFrom, hr, hempty]
        rfl
      | transient m =>
        have hpast' : ∀ j < k+1, ∃ m, results j = .error (.transient m) := by
          intro j hj
          rcases Nat.lt_succ_iff_lt_or_eq.mp hj with hj | rfl
          · exact hpast j hj
          · exact ⟨m, hr⟩
        have hnext := ih (k+1) m (by omega) hpast' (fun _ => by simpa using hr) hpos
        rw [retryFrom, hr, hmin]
        dsimp only
        by_cases hlt : k + 1 < attempts
        · have hmin' : min (k+1) (attempts-1) = k+1 := by omega
          rw [hmin', delayAt_succ] at hnext
          rw [if_pos hlt]
          rcases hnext with ⟨n, r, hn, hdec, heq⟩ | ⟨hall, m', hm', heq⟩
          · refine .inl ⟨n, r, hn, hdec, ?_⟩
            rw [heq, delays_cons (hdec.behind hpast')]
          · refine .inr ⟨hall, m', hm', ?_⟩
            have hlast' : k < attempts - 1 := by omega
            rw [heq, delays_cons hlast']
        · have hmin' : min (k+1) (attempts-1) = k := by omega
          rw [hmin'] at hnext
          rw [if_neg hlt]
          rcases hnext with ⟨n, r, hn, hdec, heq⟩ | ⟨hall, m', hm', heq⟩
          · have hbehind := hdec.behind hpast'
            omega
          · refine .inr ⟨hall, m', hm', ?_⟩
            have h1 : (List.range (attempts-1)).drop k = [] := by
              apply List.drop_eq_nil_of_le
              rw [List.length_range]
              omega
            have h2 : (List.range (attempts-1)).drop (k+1) = [] := by
              apply List.drop_eq_nil_of_le
              rw [List.length_range]
              omega
            rw [heq, h1, h2]

/-- The retried resolve returns what its first attempt that is not transient returned, with no attempt
behind it, and else gives up after the last one; between attempts it sleeps the base, then twice as long each
time up to the cap. -/
theorem resolve_with_retry (results : ℕ → Except ResolveError String) (attempts base : ℕ) :
    (∃ n r, n < max attempts 1 ∧ Decisive results n r ∧
        resolveOidcTokenWithRetry results attempts base = (r, (List.range n).map (delayAt base))) ∨
      (∀ j < max attempts 1, ∃ m, results j = .error (.transient m)) ∧
        ∃ m, results (max attempts 1 - 1) = .error (.transient m) ∧
          resolveOidcTokenWithRetry results attempts base = (.error
         (m ++ " -- gave up after " ++ toString (max attempts 1) ++
         " attempt(s). The stored login itself is still refreshable; this is an IdP/network problem, not a " ++
         "re-login problem"), (List.range (max attempts 1 - 1)).map (delayAt base)) := by
  have h := @retryFrom_spec results (max attempts 1) base (max attempts 1) 0 "" (Nat.zero_add _)
    (by simp) (by simp) (by omega)
  simp only [Nat.zero_min, List.drop_zero] at h
  exact h

end Retry
section State

/-- A resolve that finds the lock free and takes no time. -/
def resolveNow (f : Lookup) (disk : Disk) (now : ℕ) : Locked :=
  match resolveBegin f disk with
  | .finished r => .finished r false
  | .locking path => resolveLocked path (disk.readStoredToken path) now

/-- What a state promises of the resolve that follows it. -/
def OidcCredentialState.Promises (f : Lookup) (disk : Disk) (now : ℕ) : OidcCredentialState → Prop
  | .env => ∃ t, resolveBegin f disk = .finished (.ok t)
  | .storedFresh => ∃ path stored, resolveBegin f disk = .locking path ∧
      disk.readStoredToken path = .ok stored ∧
    resolveNow f disk now = .finished (.ok stored.accessToken) false
  | .storedExpiredRefreshable => ∃ path stored t, resolveBegin f disk = .locking path ∧
    disk.readStoredToken path = .ok stored ∧ stored.usableRefreshToken now = some t ∧
      resolveNow f disk now = .refreshing stored t
  | .storedExpiredNoRefresh => ∃ m, resolveNow f disk now = .finished (.error (.definitive m)) true
  | .none => ∃ m, resolveNow f disk now = .finished (.error (.definitive m)) false

/-- From a bearer of the environment to none at all; an expired login stays one. -/
def OidcCredentialState.rank : OidcCredentialState → ℕ
  | .env => 0
  | .storedFresh => 1
  | .storedExpiredRefreshable => 2
  | .storedExpiredNoRefresh => 3
  | .none => 4

theorem StoredToken.isStale_mono {stored : StoredToken} {now now' : ℕ} (hle : now ≤ now')
    (h : stored.isStale now = true) : stored.isStale now' = true := by
  unfold StoredToken.isStale at h ⊢
  cases he : stored.accessExpiresAt with
  | none => rfl
  | some exp =>
    simp only [he, decide_eq_true_eq] at h ⊢
    omega

theorem StoredToken.usable_mono {stored : StoredToken} {now now' : ℕ} (hle : now ≤ now')
    (h : (stored.usableRefreshToken now').isSome = true) : (stored.usableRefreshToken now).isSome = true := by
  obtain ⟨t, ht⟩ := Option.isSome_iff_exists.mp h
  unfold StoredToken.usableRefreshToken at ht ⊢
  obtain ⟨ht, hlive⟩ := Option.filter_eq_some_iff.mp ht
  have hlive' : stored.refreshExpiresAt.all (now < ·) = true := by
    cases he : stored.refreshExpiresAt with
    | none => rfl
    | some exp =>
      simp only [he, Option.all_some, decide_eq_true_eq] at hlive ⊢
      omega
  rw [ht]
  simp [Option.filter, hlive']

/-- With the same environment and store, a later probe reports nothing better. -/
theorem state_rank_mono (f : Lookup) (disk : Disk) {now now' : ℕ} (hle : now ≤ now') :
    (oidcCredentialStateFrom f disk now).rank ≤ (oidcCredentialStateFrom f disk now').rank := by
  have hstored (stored : StoredToken) :
      (if !stored.isStale now then OidcCredentialState.storedFresh
        else if (stored.usableRefreshToken now).isSome then .storedExpiredRefreshable
        else .storedExpiredNoRefresh).rank ≤
      (if !stored.isStale now' then OidcCredentialState.storedFresh
        else if (stored.usableRefreshToken now').isSome then .storedExpiredRefreshable
        else .storedExpiredNoRefresh).rank := by
    have hstale := stored.isStale_mono hle
    have husable := stored.usable_mono hle
    cases h1 : stored.isStale now with
    | false =>
      cases stored.isStale now' with
      | false => exact Nat.le_refl _
      | true => cases (stored.usableRefreshToken now').isSome <;> simp [OidcCredentialState.rank]
    | true =>
      rw [hstale h1]
      cases h2 : (stored.usableRefreshToken now').isSome with
      | true =>
        rw [husable h2]
      | false => cases (stored.usableRefreshToken now).isSome <;> simp [OidcCredentialState.rank]
  unfold oidcCredentialStateFrom
  split
  · exact Nat.le_refl _
  · split
    · exact Nat.le_refl _
    · split
      · exact Nat.le_refl _
      · split
        · exact Nat.le_refl _
        · exact hstored _

/-- The environment without one of its variables. -/
def Lookup.unset (f : Lookup) (key : String) : Lookup := fun k => if k = key then none else f k

/-- What the probe passes over is the bearer file alone. -/
theorem state_of_unreadable {f : Lookup} {disk : Disk} {now : ℕ} {e : String} (henv : envToken f = none)
    (hfile : tokenFromFile f disk = .error e) :
    oidcCredentialStateFrom f disk now = oidcCredentialStateFrom (f.unset "CT_OIDC_TOKEN_FILE") disk now := by
  have henv' : envToken (f.unset "CT_OIDC_TOKEN_FILE") = none := henv
  have hfile' : tokenFromFile (f.unset "CT_OIDC_TOKEN_FILE") disk = .ok none := rfl
  have hpath : tokenStorePath (f.unset "CT_OIDC_TOKEN_FILE") = tokenStorePath f := rfl
  unfold oidcCredentialStateFrom
  rw [henv, henv', hpath]
  simp only [hfile, hfile']

/-- What the probe reports is what a resolve at that moment does, unless the bearer file cannot be read:
the resolve reports that as transient, and the probe what it reports without the file. With time the report
only worsens. -/
theorem state_predicts_resolve (f : Lookup) (disk : Disk) (now : ℕ) :
    (∀ e, envToken f = none → tokenFromFile f disk = .error e →
        resolveNow f disk now = .finished (.error (.transient e)) false ∧
        oidcCredentialStateFrom f disk now = oidcCredentialStateFrom (f.unset "CT_OIDC_TOKEN_FILE") disk now) ∧
      ((envToken f = none → ∀ e, tokenFromFile f disk ≠ .error e) →
        (oidcCredentialStateFrom f disk now).Promises f disk now) ∧
      ∀ now', now ≤ now' →
        (oidcCredentialStateFrom f disk now).rank ≤ (oidcCredentialStateFrom f disk now').rank := by
  refine ⟨?_, ?_, fun now' hle => state_rank_mono f disk hle⟩
  · intro e henv hfile
    refine ⟨?_, state_of_unreadable henv hfile⟩
    simp only [resolveNow, resolveBegin, henv, hfile]
  · intro hreadable
    unfold oidcCredentialStateFrom
    cases henv : envToken f with
    | some t => exact ⟨t, by simp only [resolveBegin, henv]⟩
    | none =>
      simp only [Option.isSome_none, Bool.false_eq_true, if_false]
      cases hfile : tokenFromFile f disk with
      | error e => exact absurd hfile (hreadable henv e)
      | ok bearer =>
        cases bearer with
        | some t => exact ⟨t, by simp only [resolveBegin, henv, hfile]⟩
        | none =>
          dsimp only
          cases hpath : tokenStorePath f with
          | error e => exact ⟨e, by simp only [resolveNow, resolveBegin, henv, hfile, hpath]⟩
          | ok path =>
            have hbegin : resolveBegin f disk = .locking path := by
              simp only [resolveBegin, henv, hfile, hpath]
            have hnow : resolveNow f disk now = resolveLocked path (disk.readStoredToken path) now := by
              simp only [resolveNow, hbegin]
            dsimp only
            cases hread : disk.readStoredToken path with
            | error e => exact ⟨_, by rw [hnow, hread]; rfl⟩
            | ok stored =>
              rw [hread] at hnow
              dsimp only
              cases hstale : stored.isStale now with
              | false =>
                refine ⟨path, stored, hbegin, hread, ?_⟩
                rw [hnow]
                simp only [resolveLocked, hstale, Bool.not_false, if_true]
              | true =>
                cases husable : stored.usableRefreshToken now with
                | some t =>
                  refine ⟨path, stored, t, hbegin, hread, husable, ?_⟩
                  rw [hnow]
                  simp only [resolveLocked, hstale, husable, Bool.not_true, Bool.false_eq_true, if_false]
                | none =>
                  apply Exists.intro
                  rw [hnow]
                  simp only [resolveLocked, hstale, husable, Bool.not_true, Bool.false_eq_true, if_false]
                  rfl

end State
end CtAgent.Login
