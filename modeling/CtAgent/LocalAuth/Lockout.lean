import CtAgent.Lib.Run
import CtAgent.LocalAuth.Gate

/-! Calls of the gate one after the other: when five failures in a row lock it. -/
namespace CtAgent.LocalAuth
open CtAgent.Lib

/-- An attempt that was compared with the credential: when its limiter was asked, when it was recorded,
whether it succeeded, and whether its failure opened a window. -/
structure Attempt where
  checkedAt : ℕ
  recordedAt : ℕ
  ok : Bool
  opened : Bool
  deriving DecidableEq, Repr

inductive GateCall where
  | verify (checkedAt recordedAt : ℕ) (username : String) (password : Bytes)
  | verifyPasswordOnly (checkedAt recordedAt : ℕ) (password : Bytes)
  | shareLink (now checkedAt recordedAt : ℕ) (fault : Option StoreFault) (secret : Secret) (request : Bytes)
  deriving DecidableEq

/-- The first reading of the clock in a call, and the last. -/
def GateCall.times : GateCall → ℕ × ℕ
  | .verify checkedAt recordedAt _ _ => (checkedAt, recordedAt)
  | .verifyPasswordOnly checkedAt recordedAt _ => (checkedAt, recordedAt)
  | .shareLink _ checkedAt recordedAt _ _ _ => (checkedAt, recordedAt)

inductive GateAnswer where
  | password (result : Except GateRejection Unit)
  | link (verdict : LinkGateVerdict)

/-- The gate, the last reading of the clock and the attempts so far, the last one in front. -/
structure GateRun where
  gate : LocalAuthGate
  clock : ℕ
  attempts : List Attempt
  deriving DecidableEq

section
variable (sha256 : Bytes → Vector UInt8 32)

/-- What a password call compares the credential with. -/
def GateCall.fits : GateCall → Option (StoredCredential → Bool)
  | .verify _ _ username password => some (fun c => c.verify sha256 username password)
  | .verifyPasswordOnly _ _ password => some (fun c => c.verifyPassword sha256 password)
  | .shareLink .. => none

def GateCall.perform (g : LocalAuthGate) : GateCall → GateAnswer × LocalAuthGate
  | .verify checkedAt recordedAt username password =>
    let (r, g) := g.verify sha256 checkedAt recordedAt username password
    (.password r, g)
  | .verifyPasswordOnly checkedAt recordedAt password =>
    let (r, g) := g.verifyPasswordOnly sha256 checkedAt recordedAt password
    (.password r, g)
  | .shareLink now checkedAt recordedAt fault secret request =>
    let (v, g) := g.checkShareLinkAt sha256 now checkedAt recordedAt fault secret request
    (.link v, g)

/-- The attempt a call makes on the credential, if the limiter lets it. -/
def GateCall.attempt? (g : LocalAuthGate) (c : GateCall) : Option Attempt :=
  match c.fits sha256, g.limiter.check c.times.1 with
  | some fits, .allowed =>
    let ok := (g.credential.map fits).getD false
    some ⟨c.times.1, c.times.2, ok, !ok && g.limiter.opensWindow c.times.2⟩
  | _, _ => none

/-- One call; the clock does not go back. -/
def GateRun.step (s : GateRun) (c : GateCall) : Option GateRun :=
  if s.clock ≤ c.times.1 ∧ c.times.1 ≤ c.times.2 then
    some ⟨(c.perform sha256 s.gate).2, c.times.2, (c.attempt? sha256 s.gate).toList ++ s.attempts⟩
  else none

end

/-- The failures since the last window was opened; none behind a success. -/
def sinceOpened : List Attempt → ℕ
  | [] => 0
  | a :: earlier => if a.ok then 0 else if a.opened then 1 else sinceOpened earlier + 1

/-- What a limiter holds after the attempts that were made. -/
structure LimiterInv (l : RateLimiter) (clock : ℕ) (attempts : List Attempt) : Prop where
  failures : l.failures = sinceOpened attempts
  fresh : attempts = [] → l.lockedUntil = 0
  locked : ∀ a ∈ attempts.head?, maxFailures ≤ sinceOpened attempts → l.lockedUntil = a.recordedAt + lockout
  unlocked : ∀ a ∈ attempts.head?, sinceOpened attempts < maxFailures → l.lockedUntil ≤ a.recordedAt
  clock : ∀ a ∈ attempts, a.recordedAt ≤ clock
  ordered : attempts.Pairwise (fun a b => b.recordedAt ≤ a.checkedAt)
  taken : ∀ a ∈ attempts, a.checkedAt ≤ a.recordedAt

section
variable {sha256 : Bytes → Vector UInt8 32} {s s' : GateRun} {c : GateCall}

theorem attempt_limiter (g : LocalAuthGate) (checkedAt recordedAt : ℕ) (fits : StoredCredential → Bool) :
    (g.attempt checkedAt recordedAt fits).2.limiter =
      match g.limiter.check checkedAt with
      | .locked _ => g.limiter
      | .allowed => g.limiter.record recordedAt ((g.credential.map fits).getD false) := by
  unfold LocalAuthGate.attempt
  cases g.limiter.check checkedAt with
  | locked retryAfter => rfl
  | allowed => rfl

/-- What a call does to the limiter: nothing, or the record of the attempt it makes. -/
theorem perform_limiter (g : LocalAuthGate) (c : GateCall) :
    (c.perform sha256 g).2.limiter =
      match c.attempt? sha256 g with
      | none => g.limiter
      | some a => g.limiter.record a.recordedAt a.ok := by
  cases c with
  | shareLink now checkedAt recordedAt fault secret request =>
    exact (checkShareLinkAt_limiter sha256 g now checkedAt recordedAt fault secret request).1
  | verify checkedAt recordedAt username password =>
    refine (attempt_limiter g checkedAt recordedAt _).trans ?_
    unfold GateCall.attempt? GateCall.fits GateCall.times
    dsimp only
    cases g.limiter.check checkedAt <;> rfl
  | verifyPasswordOnly checkedAt recordedAt password =>
    refine (attempt_limiter g checkedAt recordedAt _).trans ?_
    unfold GateCall.attempt? GateCall.fits GateCall.times
    dsimp only
    cases g.limiter.check checkedAt <;> rfl

/-- An attempt is made where the limiter is not locked. -/
theorem attempt?_eq_some {g : LocalAuthGate} {a : Attempt} (h : c.attempt? sha256 g = some a) :
    a.checkedAt = c.times.1 ∧ a.recordedAt = c.times.2 ∧ g.limiter.lockedUntil ≤ c.times.1 ∧
      a.opened = (!a.ok && g.limiter.opensWindow c.times.2) ∧ (c.fits sha256).isSome = true := by
  unfold GateCall.attempt? at h
  split at h
  · next hfits hcheck =>
    cases h
    refine ⟨rfl, rfl, ?_, rfl, by rw [hfits]; rfl⟩
    unfold RateLimiter.check at hcheck
    split at hcheck
    · cases hcheck
    · next hle => exact Nat.le_of_not_lt hle
  · cases h

theorem attempt?_eq_none {g : LocalAuthGate} (hfits : (c.fits sha256).isSome = true) :
    c.attempt? sha256 g = none ↔ c.times.1 < g.limiter.lockedUntil := by
  obtain ⟨fits, hfits⟩ := Option.isSome_iff_exists.mp hfits
  unfold GateCall.attempt? RateLimiter.check
  rw [hfits]
  by_cases h : c.times.1 < g.limiter.lockedUntil
  · simp [h]
  · simp [h]

/-- A password call that the limiter stops is answered so. -/
theorem perform_locked {g : LocalAuthGate} (hfits : (c.fits sha256).isSome = true)
    (h : c.times.1 < g.limiter.lockedUntil) :
    (c.perform sha256 g).1 = .password (.error (.rateLimited (g.limiter.lockedUntil - c.times.1))) := by
  have hattempt (checkedAt recordedAt : ℕ) (fits : StoredCredential → Bool)
      (hlt : checkedAt < g.limiter.lockedUntil) : (g.attempt checkedAt recordedAt fits).1 =
        .error (.rateLimited (g.limiter.lockedUntil - checkedAt)) := by
    unfold LocalAuthGate.attempt RateLimiter.check
    rw [if_pos hlt]
  cases c with
  | shareLink now checkedAt recordedAt fault secret request => cases hfits
  | verify checkedAt recordedAt username password =>
    exact congrArg GateAnswer.password (hattempt checkedAt recordedAt _ h)
  | verifyPasswordOnly checkedAt recordedAt password =>
    exact congrArg GateAnswer.password (hattempt checkedAt recordedAt _ h)

theorem step_eq_some : s.step sha256 c = some s' ↔ (s.clock ≤ c.times.1 ∧ c.times.1 ≤ c.times.2) ∧
    s' = ⟨(c.perform sha256 s.gate).2, c.times.2, (c.attempt? sha256 s.gate).toList ++ s.attempts⟩ := by
  unfold GateRun.step
  rw [Option.ite_none_right_eq_some, Option.some.injEq]
  exact and_congr_right fun _ => eq_comm

/-- What a failure or a success makes of the two counters. -/
theorem record_counters (l : RateLimiter) (now : ℕ) (ok : Bool) :
    (l.record now ok).failures = (if ok then 0 else if l.opensWindow now then 1 else l.failures + 1) ∧
      (l.record now ok).lockedUntil =
        if ok = false ∧ l.opensWindow now = false ∧ maxFailures ≤ l.failures + 1 then now + lockout
        else l.lockedUntil := by
  unfold RateLimiter.record
  cases ok with
  | true => exact ⟨rfl, rfl⟩
  | false =>
    cases h : l.opensWindow now with
    | true => exact ⟨rfl, rfl⟩
    | false => simp

section
variable {l : RateLimiter} {clock : ℕ} {attempts : List Attempt}

theorem LimiterInv.later {clock' : ℕ} (hi : LimiterInv l clock attempts) (h : clock ≤ clock') :
    LimiterInv l clock' attempts :=
  ⟨hi.failures, hi.fresh, hi.locked, hi.unlocked, fun a ha => (hi.clock a ha).trans h, hi.ordered, hi.taken⟩

/-- One attempt more, made while the limiter was not locked. -/
theorem LimiterInv.record {a : Attempt} (hi : LimiterInv l clock attempts) (hclock : clock ≤ a.checkedAt)
    (htimes : a.checkedAt ≤ a.recordedAt) (hfree : l.lockedUntil ≤ a.checkedAt)
    (hopened : a.opened = (!a.ok && l.opensWindow a.recordedAt)) :
    LimiterInv (l.record a.recordedAt a.ok) a.recordedAt (a :: attempts) := by
  obtain ⟨hfailures, hlocked⟩ := record_counters l a.recordedAt a.ok
  have hcount : (l.record a.recordedAt a.ok).failures = sinceOpened (a :: attempts) := by
    rw [hfailures, hi.failures, sinceOpened, hopened]
    cases a.ok <;> cases l.opensWindow a.recordedAt <;> rfl
  have hlocks : (a.ok = false ∧ l.opensWindow a.recordedAt = false ∧ maxFailures ≤ l.failures + 1) ↔
      maxFailures ≤ sinceOpened (a :: attempts) := by
    have hfive : maxFailures = 5 := rfl
    rw [sinceOpened, hi.failures, hopened, hfive]
    cases a.ok <;> cases l.opensWindow a.recordedAt <;> simp
  refine ⟨hcount, nofun, ?_, ?_, ?_, ?_, ?_⟩
  · intro a' ha' hmany
    cases ha'
    rw [hlocked, if_pos (hlocks.mpr hmany)]
  · intro a' ha' hfew
    cases ha'
    rw [hlocked, if_neg (fun h => Nat.not_le.mpr hfew (hlocks.mp h))]
    exact hfree.trans htimes
  · intro a' ha'
    rcases List.mem_cons.mp ha' with rfl | hmem
    · exact Nat.le_refl _
    · exact (hi.clock a' hmem).trans (hclock.trans htimes)
  · exact List.pairwise_cons.mpr ⟨fun b hb => (hi.clock b hb).trans hclock, hi.ordered⟩
  · exact List.forall_mem_cons.mpr ⟨htimes, hi.taken⟩

end

def GateRun.Inv (s : GateRun) : Prop := LimiterInv s.gate.limiter s.clock s.attempts

theorem inv_step (hi : s.Inv) (h : s.step sha256 c = some s') : s'.Inv := by
  obtain ⟨⟨hclock, htimes⟩, rfl⟩ := step_eq_some.mp h
  have hlimiter := @perform_limiter sha256 s.gate c
  cases ha : c.attempt? sha256 s.gate with
  | none =>
    rw [ha] at hlimiter
    unfold GateRun.Inv
    rw [hlimiter]
    exact hi.later (hclock.trans htimes)
  | some a =>
    obtain ⟨hchecked, hrecorded, hfree, hopened, -⟩ := attempt?_eq_some ha
    rw [ha] at hlimiter
    unfold GateRun.Inv
    rw [hlimiter, ← hrecorded]
    rw [← hchecked] at hclock hfree
    rw [← hchecked, ← hrecorded] at htimes
    rw [← hrecorded] at hopened
    exact hi.record hclock htimes hfree hopened

/-- The last five attempts failed within a window, the last of them at `last`. -/
structure LastFive (block : List Attempt) (last : ℕ) : Prop where
  count : block.length = maxFailures
  failed : ∀ a ∈ block, a.ok = false
  newest : ∀ a ∈ block.head?, a.recordedAt = last
  within : ∀ a ∈ block.getLast?, last ≤ a.recordedAt + window

/-- At least five attempts in a row, with the first and the last of them at most a window apart, failed;
there may be others behind them. -/
def FailedInARow (attempts : List Attempt) (last : ℕ) : Prop :=
  ∃ after block before, attempts = after ++ (block ++ before) ∧ maxFailures ≤ block.length ∧
    (∀ a ∈ block, a.ok = false) ∧ (∀ a ∈ block.head?, a.recordedAt = last) ∧
    ∀ a ∈ block.getLast?, last ≤ a.recordedAt + window

/-- No failure behind the first one of a block found its window closed: they count together. -/
theorem length_le_sinceOpened {block : List Attempt} (before : List Attempt)
    (hfailed : ∀ a ∈ block, a.ok = false)
    (hopen : ∀ a ∈ block.dropLast, a.opened = false) : block.length ≤ sinceOpened (block ++ before) := by
  induction block with
  | nil => exact Nat.zero_le _
  | cons a block ih =>
    have hok : a.ok = false := hfailed a List.mem_cons_self
    cases block with
    | nil =>
      rw [List.singleton_append, sinceOpened, hok]
      split
      · contradiction
      split
      · exact Nat.le_refl _
      · simp
    | cons b block =>
      have ha : a.opened = false := hopen a (by simp)
      have hrest := ih (fun a' h => hfailed a' (List.mem_cons_of_mem a h))
        (fun a' h => hopen a' (by rw [List.dropLast_cons_of_ne_nil (by simp)]; exact List.mem_cons_of_mem a h))
      rw [List.cons_append, sinceOpened, hok, ha]
      rw [List.length_cons]
      exact Nat.succ_le_succ hrest

theorem sinceOpened_lt_length {block : List Attempt} (before : List Attempt)
    (hfailed : ∀ a ∈ block, a.ok = false)
    (hopen : ∃ a ∈ block.dropLast, a.opened = true) : sinceOpened (block ++ before) < block.length := by
  induction block with
  | nil =>
    obtain ⟨a, hmem, -⟩ := hopen
    cases hmem
  | cons a block ih =>
    have hok : a.ok = false := hfailed a List.mem_cons_self
    cases block with
    | nil =>
      obtain ⟨a', hmem, -⟩ := hopen
      cases hmem
    | cons b block =>
      rw [List.cons_append, sinceOpened, hok, List.length_cons]
      cases ha : a.opened with
      | true => simp
      | false =>
        obtain ⟨a', hmem, hopened⟩ := hopen
        rw [List.dropLast_cons_of_ne_nil (by simp)] at hmem
        rcases List.mem_cons.mp hmem with rfl | hmem
        · rw [ha] at hopened
          cases hopened
        · have hlt := ih (fun a' h => hfailed a' (List.mem_cons_of_mem a h)) ⟨a', hmem, hopened⟩
          simpa using hlt

/-- Where the last five failed within a window, the limiter is locked exactly if none of the last four
opened a window. -/
theorem GateRun.Inv.locked_iff {block before : List Attempt} {last : ℕ} (hi : s.Inv)
    (hs : s.attempts = block ++ before)
    (h : LastFive block last) (hclock : s.clock ≤ c.times.1) (hsoon : c.times.1 < last + lockout) :
    c.times.1 < s.gate.limiter.lockedUntil ↔ ∀ a ∈ block.dropLast, a.opened = false := by
  have hfive : maxFailures = 5 := rfl
  obtain ⟨a, hhead⟩ : ∃ a, block.head? = some a := by
    cases hb : block with
    | nil =>
      have hcount := h.count
      rw [hb] at hcount
      cases hcount
    | cons a block => exact ⟨a, rfl⟩
  have hnewest : a.recordedAt = last := h.newest a hhead
  have hfirst : s.attempts.head? = some a := by
    rw [hs, List.head?_append, hhead]
    rfl
  constructor
  · intro hlocked a' ha'
    by_contra hopened
    rw [Bool.not_eq_false] at hopened
    have hfew := sinceOpened_lt_length before h.failed ⟨a', ha', hopened⟩
    rw [← hs, h.count] at hfew
    have hfree := hi.unlocked a hfirst hfew
    have hpast := hi.clock a (List.mem_of_mem_head? hfirst)
    omega
  · intro hkept
    have hmany := length_le_sinceOpened before h.failed hkept
    rw [← hs, h.count] at hmany
    rw [hi.locked a hfirst hmany, hnewest]
    exact hsoon

/-- The last five of more failures in a row. -/
theorem lastFive_of_block {after block rest : List Attempt} {last : ℕ} (hi : s.Inv)
    (hs : s.attempts = after ++ (block ++ rest))
    (hlen : maxFailures ≤ block.length) (hfailed : ∀ a ∈ block, a.ok = false)
    (hnewest : ∀ a ∈ block.head?, a.recordedAt = last)
    (hwithin : ∀ a ∈ block.getLast?, last ≤ a.recordedAt + window) :
    LastFive (block.take maxFailures) last := by
  refine ⟨List.length_take_of_le hlen, fun a ha => hfailed a (List.mem_of_mem_take ha), fun a ha => ?_,
    fun a ha => ?_⟩
  · rw [List.head?_take] at ha
    exact hnewest a ha
  · have hcut := List.take_append_drop maxFailures block
    have hlast : block.getLast? = (block.drop maxFailures).getLast?.or (block.take maxFailures).getLast? := by
      rw [← List.getLast?_append, hcut]
    cases hdrop : (block.drop maxFailures).getLast? with
    | none =>
      rw [hdrop, Option.none_or] at hlast
      exact hwithin a (hlast.trans ha)
    | some b =>
      rw [hdrop, Option.some_or] at hlast
      -- the fifth is not older than the oldest
      have hordered := hi.ordered
      rw [hs, ← hcut, List.append_assoc] at hordered
      have hold : b.recordedAt ≤ a.checkedAt := by
        apply (List.pairwise_append.mp (List.pairwise_append.mp hordered).2.1).2.2 a
          (List.mem_of_getLast? ha) b
        exact List.mem_append_left _ (List.mem_of_getLast? hdrop)
      have htaken : a.checkedAt ≤ a.recordedAt := by
        apply hi.taken
        have hblock := List.mem_of_mem_take (List.mem_of_getLast? ha)
        rw [hs]
        exact List.mem_append_right _ (List.mem_append_left _ hblock)
      have hbound := hwithin b hlast
      omega

end

section
variable (sha256 : Bytes → Vector UInt8 32)

/-- A gate as it is set up. -/
def GateRun.start (credential : Option StoredCredential) (links : Option LinksFile) : GateRun :=
  ⟨⟨credential, .new, .new, links⟩, 0, []⟩

/-- Every password call within the lockout behind five failures in a row is turned away, its credential
not looked at. -/
def LocksOut (s₀ : GateRun) (calls : List GateCall) : Prop :=
  ∀ pre c post s s', calls = pre ++ c :: post → run (GateRun.step sha256) s₀ pre = some s →
    s.step sha256 c = some s' → (c.fits sha256).isSome = true →
      ∀ last, FailedInARow s.attempts last → c.times.1 < last + lockout →
        c.attempt? sha256 s.gate = none ∧
          ∃ retryAfter, (c.perform sha256 s.gate).1 = .password (.error (.rateLimited retryAfter))

/-- Where five failures in a row within a window are followed by a call within the lockout, none of the
second to the fifth took the branch that opens a fresh window. -/
def WindowKept (s₀ : GateRun) (calls : List GateCall) : Prop :=
  ∀ pre c post s s', calls = pre ++ c :: post → run (GateRun.step sha256) s₀ pre = some s →
    s.step sha256 c = some s' → (c.fits sha256).isSome = true →
      ∀ block before last, s.attempts = block ++ before → LastFive block last → c.times.1 < last + lockout →
        ∀ a ∈ block.dropLast, a.opened = false

end

section
variable {sha256 : Bytes → Vector UInt8 32} {s₀ : GateRun} {calls : List GateCall}

theorem inv_start (credential : Option StoredCredential) (links : Option LinksFile) :
    (GateRun.start credential links).Inv :=
  ⟨rfl, fun _ => rfl, nofun, nofun, nofun, .nil, nofun⟩

/-- No attempt was made within the lockout behind five failures. -/
def Spaced (attempts : List Attempt) : Prop :=
  ∀ after x block before last, attempts = after ++ x :: (block ++ before) → LastFive block last →
    last + lockout ≤ x.checkedAt

/-- Up to a place in the calls the attempts are spaced, where the window is kept. -/
theorem spaced_of_windowKept (h₀ : s₀.Inv) (hnone : s₀.attempts = []) (hkept : WindowKept sha256 s₀ calls)
    {pre post : List GateCall} {s : GateRun} (hcalls : calls = pre ++ post)
    (hr : run (GateRun.step sha256) s₀ pre = some s) : s.Inv ∧ Spaced s.attempts := by
  induction pre using List.reverseRecOn generalizing post s with
  | nil =>
    cases hr
    refine ⟨h₀, fun after x block before last hsplit => ?_⟩
    rw [hnone] at hsplit
    simp at hsplit
  | append_singleton pre c ih =>
    rw [List.append_assoc, List.singleton_append] at hcalls
    obtain ⟨s₁, s₂, hr₁, hstep, hr₂⟩ := run_split hr
    cases hr₂
    obtain ⟨hi, hspaced⟩ := ih hcalls hr₁
    refine ⟨inv_step hi hstep, ?_⟩
    obtain ⟨⟨hclock, -⟩, rfl⟩ := step_eq_some.mp hstep
    intro after x block before last hsplit hfive
    dsimp only at hsplit
    cases ha : c.attempt? sha256 s₁.gate with
    | none =>
      rw [ha] at hsplit
      exact hspaced after x block before last hsplit hfive
    | some a =>
      rw [ha] at hsplit
      cases after with
      | cons a' after => exact hspaced after x block before last (List.cons.inj hsplit).2 hfive
      | nil =>
        obtain ⟨hax, hattempts⟩ := List.cons.inj hsplit
        obtain ⟨hchecked, -, hfree, -, hfits⟩ := attempt?_eq_some ha
        rw [← hax, hchecked]
        by_contra hsoon
        have hlocked := (GateRun.Inv.locked_iff hi hattempts hfive hclock (Nat.lt_of_not_le hsoon)).mpr
          (hkept pre c post s₁ _ hcalls hr₁ hstep hfits block before last hattempts hfive
            (Nat.lt_of_not_le hsoon))
        omega

/-- Five failures within a window lock the gate for the lockout in every sequence of calls exactly where
no window is opened in the middle of such failures; and no share link that is presented moves the limiter. -/
theorem lockout_iff (sha256 : Bytes → Vector UInt8 32) (credential : Option StoredCredential)
    (links : Option LinksFile) (calls : List GateCall) :
    (LocksOut sha256 (.start credential links) calls ↔ WindowKept sha256 (.start credential links) calls) ∧
      ∀ (g : LocalAuthGate) (now checkedAt recordedAt : ℕ) (fault : Option StoreFault) (secret : Secret)
        (request : Bytes),
        (g.checkShareLinkAt sha256 now checkedAt recordedAt fault secret request).2.limiter = g.limiter := by
  refine ⟨⟨fun hlocks => ?_, fun hkept => ?_⟩, fun g now checkedAt recordedAt fault secret request => ?_⟩
  · intro pre c post s s' hcalls hr hstep hfits block before last hattempts hfive hsoon
    have hclock := (step_eq_some.mp hstep).1.1
    have hi : s.Inv :=
      run_invariant (GateRun.step sha256) GateRun.Inv (fun _ _ _ hi h => inv_step hi h) pre _ s
        (inv_start credential links) hr
    have hrow : FailedInARow s.attempts last :=
      ⟨[], block, before, hattempts, Nat.le_of_eq hfive.count.symm, hfive.failed, hfive.newest, hfive.within⟩
    have hnone := (hlocks pre c post s s' hcalls hr hstep hfits last hrow hsoon).1
    exact (GateRun.Inv.locked_iff hi hattempts hfive hclock hsoon).mp ((attempt?_eq_none hfits).mp hnone)
  · intro pre c post s s' hcalls hr hstep hfits last hrow hsoon
    have hclock := (step_eq_some.mp hstep).1.1
    obtain ⟨hi, hspaced⟩ := spaced_of_windowKept (inv_start credential links) rfl hkept hcalls hr
    obtain ⟨after, block, before, hattempts, hlen, hfailed, hnewest, hwithin⟩ := hrow
    have htake : block ++ before = block.take maxFailures ++ (block.drop maxFailures ++ before) := by
      rw [← List.append_assoc, List.take_append_drop]
    have hfive := lastFive_of_block hi hattempts hlen hfailed hnewest hwithin
    rcases List.eq_nil_or_concat after with rfl | ⟨after', x, rfl⟩
    · rw [List.nil_append, htake] at hattempts
      have hlocked := (GateRun.Inv.locked_iff hi hattempts hfive hclock hsoon).mpr
        (hkept pre c post s s' hcalls hr hstep hfits _ _ last hattempts hfive hsoon)
      exact ⟨(attempt?_eq_none hfits).mpr hlocked, _, perform_locked hfits hlocked⟩
    · -- an attempt behind the block was made after the lockout already
      rw [List.concat_eq_append, List.append_assoc, List.singleton_append, htake] at hattempts
      have hlate := hspaced after' x _ _ last hattempts hfive
      have hx : x ∈ s.attempts := by
        rw [hattempts]
        simp
      have hpast := (hi.taken x hx).trans (hi.clock x hx)
      omega
  · exact (checkShareLinkAt_limiter sha256 g now checkedAt recordedAt fault secret request).1

end

/-- A hash that tells the sample's password from every other. -/
def sampleSha (bytes : Bytes) : Vector UInt8 32 :=
  Vector.replicate 32 (if bytes = List.replicate 16 0 ++ [1] then 1 else 0)

def sampleCredential : StoredCredential := ⟨"agent", Vector.replicate 16 0, Vector.replicate 32 1⟩

def sampleFailures : List GateCall :=
  [1000, 1058, 1059, 1060, 1061, 1062].map fun t => .verifyPasswordOnly t t [2]

/-- Five failures in five seconds, the window of an older one running out among them: the gate looks at
the next credential at once. -/
theorem straddling_failures_not_locked :
    ¬ LocksOut sampleSha (.start (some sampleCredential) none)
      (sampleFailures ++ [.verifyPasswordOnly 1063 1063 [1]]) := by
  intro hlocks
  have hrow : FailedInARow [⟨1062, 1062, false, false⟩, ⟨1061, 1061, false, true⟩, ⟨1060, 1060, false, false⟩,
      ⟨1059, 1059, false, false⟩, ⟨1058, 1058, false, false⟩, ⟨1000, 1000, false, true⟩] 1062 := by
    refine ⟨[], [⟨1062, 1062, false, false⟩, ⟨1061, 1061, false, true⟩, ⟨1060, 1060, false, false⟩,
      ⟨1059, 1059, false, false⟩, ⟨1058, 1058, false, false⟩], [⟨1000, 1000, false, true⟩],
        rfl, ?_, ?_, ?_, ?_⟩
      <;> decide
  have hnone := (hlocks sampleFailures (.verifyPasswordOnly 1063 1063 [1]) [] _ _ rfl rfl rfl rfl 1062 hrow
    (by decide)).1
  cases hnone

end CtAgent.LocalAuth
