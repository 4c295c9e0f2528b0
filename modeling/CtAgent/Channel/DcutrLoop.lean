import CtAgent.Lib.Run
import CtAgent.Lib.Substring

/-! The DCUtR join loop: what it does after each attempt, with its counters, clock and delays. -/
namespace CtAgent.Channel.Dcutr
open CtAgent.Lib

structure AdmissionRefused where
  text : String
  category : Option String
  deriving DecidableEq, Repr

/-- What the classifiers see of an error: the refusal it is or wraps, its text, whether it is a
`ParkExpired`, and whether `error_names_park_expiry` finds one in its texts. -/
structure JoinFault where
  refusal : Option AdmissionRefused
  message : String
  parkExpired : Bool
  namesParkExpiry : Bool
  deriving DecidableEq, Repr

namespace JoinFault

def isDefinitiveAdmissionRefusal (e : JoinFault) : Bool :=
  e.refusal.isSome || contains e.message "refused the channel join"

def isParkExpired (e : JoinFault) : Bool := e.parkExpired || e.namesParkExpiry

/-- The refusal says that this member's own grant is over. -/
def ownGrantRefusal (ownExpiresAt : Option ℕ) (now : ℕ) (e : JoinFault) : Option String :=
  match e.refusal with
  | none => none
  | some refusal =>
    let ownEnd := match refusal.category with
      | some "grant-revoked" => true
      | some "grant-verify" => ownExpiresAt.any (fun expiry => decide (expiry ≤ now))
      | _ => false
    if ownEnd then some refusal.text else none

end JoinFault

/-- In milliseconds, as all delays here. -/
def refusedAdmissionBackoffCap : ℕ := 30000
def dcutrRetryBackoff : ℕ := 200

def oneShotDcutrAdmissionRetries : ℕ := 2
def maxConsecutiveDcutrDialFailures : ℕ := 20

def admissionRetryBackoff (retryBackoff : ℕ) (refused : Bool) (consecutiveRefusals : UInt32) : ℕ :=
  if refused then min (retryBackoff * 2 ^ min consecutiveRefusals.toNat 16) refusedAdmissionBackoffCap
  else retryBackoff

inductive DcutrLoopAction where
  | retryReset (delay : ℕ) (consecutiveRefusals : UInt32)
  | retryBounded (nextAttempt delay : ℕ)
  | stop
  deriving DecidableEq, Repr

def dialFailureAction (consecutive : ℕ) : Option ℕ :=
  if maxConsecutiveDcutrDialFailures ≤ consecutive then none
  else some (admissionRetryBackoff dcutrRetryBackoff true (UInt32.ofNat (consecutive - 1)))

section
variable {T : Type}

def dcutrLoopAction (result : Except JoinFault T) (serveLoop : Bool) (attempt maxOneShotRetries : ℕ)
    (consecutiveRefusals : UInt32) : DcutrLoopAction :=
  let (errored, refused, expired) := match result with
    | .ok _ => (false, false, false)
    | .error e => (true, e.isDefinitiveAdmissionRefusal, e.isParkExpired)
  if serveLoop then
    if expired then .retryReset 0 0
    else if refused then
      .retryReset (admissionRetryBackoff dcutrRetryBackoff true consecutiveRefusals) (consecutiveRefusals + 1)
    else .retryReset dcutrRetryBackoff 0
  else if refused then .stop
  else if errored && decide (attempt < maxOneShotRetries) then
    .retryBounded (attempt + 1) (if expired then 0 else dcutrRetryBackoff)
  else .stop

/-- What one dial and admission comes to; the outer error is of the dial or setup. -/
abbrev Joined (T : Type) := Except JoinFault (Except JoinFault T)

/-- What a round of the loop meets: the clock in front of the join and behind it, what the join comes
to, and whether the timer of the own grant ends the join or the backoff first. -/
structure Round (T : Type) where
  now : ℕ
  joined : Joined T
  expiredDuring : Bool
  after : ℕ
  expiredBackoff : Bool

/-- A join that was started: at which reading, what it came to where it was not dropped, the reading
behind it, and the delay that followed, without its jitter. -/
structure Turn (T : Type) where
  startedAt : ℕ
  joined : Option (Joined T)
  endedAt : ℕ
  delay : Option ℕ

inductive LoopEnd (T : Type) where
  | ownGrantEnded (reason : String)
  | gaveUp (why : String)
  | dialFailed (e : JoinFault)
  | returned (result : Except JoinFault T)

structure LoopState (T : Type) where
  attempt : ℕ
  consecutiveRefusals : UInt32
  consecutiveDialFailures : ℕ
  turns : List (Turn T)
  ended : Option (LoopEnd T)

def LoopState.started : LoopState T := ⟨0, 0, 0, [], none⟩

def LoopState.turn (s : LoopState T) (t : Turn T) : LoopState T := { s with turns := s.turns ++ [t] }

def LoopState.ends (s : LoopState T) (e : LoopEnd T) : LoopState T := { s with ended := some e }

/-- `own_expiry_ends_dcutr_loop`. -/
def ownExpiryEnds (expiry : ℕ) : LoopEnd T :=
  .ownGrantEnded s!"this member's channel grant expired (expires_at {expiry})"

section
variable (label : String) (serveLoop : Bool) (ownExpiresAt : Option ℕ)

/-- `backoff_within_grant`. -/
def backoffWithinGrant (r : Round T) (s : LoopState T) : LoopState T :=
  match ownExpiresAt with
  | some expiry => if r.expiredBackoff then s.ends (ownExpiryEnds expiry) else s
  | none => s

def afterDialFailure (r : Round T) (e : JoinFault) (s : LoopState T) : LoopState T :=
  if serveLoop then
    let failures := s.consecutiveDialFailures + 1
    let s := { s with consecutiveDialFailures := failures }
    match dialFailureAction failures with
    | some delay => backoffWithinGrant ownExpiresAt r (s.turn ⟨r.now, some (.error e), r.after, some delay⟩)
    | none =>
      let message := e.message
      (s.turn ⟨r.now, some (.error e), r.after, none⟩).ends
        (.gaveUp s!"{label}: giving up after {failures} consecutive dial failures: {message}")
  else (s.turn ⟨r.now, some (.error e), r.after, none⟩).ends (.dialFailed e)

def afterAdmission (r : Round T) (result : Except JoinFault T) (s : LoopState T) : LoopState T :=
  match dcutrLoopAction result serveLoop s.attempt oneShotDcutrAdmissionRetries s.consecutiveRefusals with
  | .retryReset delay refusals =>
    backoffWithinGrant ownExpiresAt r
      ({ s with attempt := 0, consecutiveRefusals := refusals }.turn ⟨r.now, some (.ok result),
        r.after, some delay⟩)
  | .retryBounded nextAttempt delay =>
    { s with attempt := nextAttempt }.turn ⟨r.now, some (.ok result), r.after, some delay⟩
  | .stop => (s.turn ⟨r.now, some (.ok result), r.after, none⟩).ends (.returned result)

/-- The own grant's end as an admission says it, where the loop watches one. -/
def ownRefusal (now : ℕ) (result : Except JoinFault T) : Option String :=
  match ownExpiresAt, result with
  | some _, .error e => e.ownGrantRefusal ownExpiresAt now
  | _, _ => none

def afterJoin (s : LoopState T) (r : Round T) : LoopState T :=
  match r.joined with
  | .error e => afterDialFailure label serveLoop ownExpiresAt r e s
  | .ok result =>
    let s := { s with consecutiveDialFailures := 0 }
    match ownRefusal ownExpiresAt r.after result with
    | some reason => (s.turn ⟨r.now, some (.ok result), r.after, none⟩).ends (.ownGrantEnded reason)
    | none => afterAdmission serveLoop ownExpiresAt r result s

/-- A pass through the loop. A loop that has returned stays as it is. -/
def loopStep (s : LoopState T) (r : Round T) : LoopState T :=
  if s.ended.isSome then s
  else
    match ownExpiresAt with
    | some expiry =>
      -- already over by this member's clock: no dial
      if expiry ≤ r.now then s.ends (ownExpiryEnds expiry)
      else if r.expiredDuring then (s.turn ⟨r.now, none, r.after, none⟩).ends (ownExpiryEnds expiry)
      else afterJoin label serveLoop ownExpiresAt s r
    | none => afterJoin label serveLoop ownExpiresAt s r

def runDcutrJoinLoop (rounds : List (Round T)) : LoopState T :=
  rounds.foldl (loopStep label serveLoop ownExpiresAt) .started

end

/-! What a sequence of joins is, for the statement. -/

inductive JoinKind where
  | dropped | dialFailure | ownGrantRefusal | success | parkExpiry | definitiveRefusal | transientError
  deriving DecidableEq, Repr

section
variable (ownExpiresAt : Option ℕ)

def Turn.ownRefusal (t : Turn T) : Option String :=
  match t.joined with
  | some (.ok result) => Dcutr.ownRefusal ownExpiresAt t.endedAt result
  | _ => none

def admissionKind : Except JoinFault T → JoinKind
  | .ok _ => .success
  | .error e =>
    if e.isParkExpired then .parkExpiry
    else if e.isDefinitiveAdmissionRefusal then .definitiveRefusal
    else .transientError

def Turn.kind (t : Turn T) : JoinKind :=
  match t.joined with
  | none => .dropped
  | some (.error _) => .dialFailure
  | some (.ok result) =>
    if (Dcutr.ownRefusal ownExpiresAt t.endedAt result).isSome then .ownGrantRefusal else admissionKind result

/-- A success, a definitive refusal or a dial failure. -/
def Turn.settles (t : Turn T) : Bool :=
  match t.joined with
  | none => false
  | some (.error _) => true
  | some (.ok (.ok _)) => true
  | some (.ok (.error e)) => e.isDefinitiveAdmissionRefusal

/-- What a loop returns that passes the join on. -/
def Turn.result (t : Turn T) : Option (LoopEnd T) :=
  match t.joined with
  | none => none
  | some (.error e) => some (.dialFailed e)
  | some (.ok result) => some (.returned result)

/-- A dial failure neither counts as a refusal nor breaks a row of them. -/
def JoinKind.inRow : JoinKind → Bool
  | .dialFailure | .definitiveRefusal => true
  | _ => false

/-- The definitive refusals at the end of a sequence of joins, with dial failures between them. -/
def refusalsInARow (turns : List (Turn T)) : ℕ :=
  (turns.reverse.takeWhile (fun t => (t.kind ownExpiresAt).inRow)).countP
    (fun t => t.kind ownExpiresAt == .definitiveRefusal)

def dialFailuresInARow (turns : List (Turn T)) : ℕ :=
  (turns.reverse.takeWhile (fun t => t.kind ownExpiresAt == .dialFailure)).length

section
variable {ownExpiresAt} {turns : List (Turn T)} {t : Turn T}

theorem refusalsInARow_dial (h : t.kind ownExpiresAt = .dialFailure) :
    refusalsInARow ownExpiresAt (turns ++ [t]) = refusalsInARow ownExpiresAt turns := by
  unfold refusalsInARow
  rw [List.reverse_append, List.reverse_singleton, List.singleton_append,
    List.takeWhile_cons_of_pos (by rw [h]; rfl), List.countP_cons_of_neg (by rw [h]; decide)]

theorem refusalsInARow_refused (h : t.kind ownExpiresAt = .definitiveRefusal) :
    refusalsInARow ownExpiresAt (turns ++ [t]) = refusalsInARow ownExpiresAt turns + 1 := by
  unfold refusalsInARow
  rw [List.reverse_append, List.reverse_singleton, List.singleton_append,
    List.takeWhile_cons_of_pos (by rw [h]; rfl), List.countP_cons_of_pos (by rw [h]; decide)]

theorem refusalsInARow_broken (h : (t.kind ownExpiresAt).inRow = false) :
    refusalsInARow ownExpiresAt (turns ++ [t]) = 0 := by
  unfold refusalsInARow
  rw [List.reverse_append, List.reverse_singleton, List.singleton_append,
    List.takeWhile_cons_of_neg (by rw [h]; exact Bool.false_ne_true), List.countP_nil]

theorem dialFailuresInARow_dial (h : t.kind ownExpiresAt = .dialFailure) :
    dialFailuresInARow ownExpiresAt (turns ++ [t]) = dialFailuresInARow ownExpiresAt turns + 1 := by
  unfold dialFailuresInARow
  rw [List.reverse_append, List.reverse_singleton, List.singleton_append,
    List.takeWhile_cons_of_pos (by rw [h]; rfl), List.length_cons]

theorem dialFailuresInARow_broken (h : t.kind ownExpiresAt ≠ .dialFailure) :
    dialFailuresInARow ownExpiresAt (turns ++ [t]) = 0 := by
  unfold dialFailuresInARow
  rw [List.reverse_append, List.reverse_singleton, List.singleton_append,
    List.takeWhile_cons_of_neg (by rwa [beq_iff_eq]), List.length_nil]

end

/-- The loop goes on, unless the own grant ends in the backoff. -/
def Paused (r : Round T) (s : LoopState T) : Prop :=
  s.ended = none ∨ ∃ expiry, ownExpiresAt = some expiry ∧ r.expiredBackoff = true ∧
    s.ended = some (ownExpiryEnds expiry)

/-- What a join of a serve loop leads to. -/
inductive ServeTurn (r : Round T) (s : LoopState T) (t : Turn T) (s' : LoopState T) : Prop where
  | dropped (expiry : ℕ) (hkind : t.kind ownExpiresAt = .dropped) (hown : ownExpiresAt = some expiry)
    (htold : r.expiredDuring = true) (hended : s'.ended = some (ownExpiryEnds expiry))
  | ownRefusal (reason : String) (hkind : t.kind ownExpiresAt = .ownGrantRefusal)
    (hreason : t.ownRefusal ownExpiresAt = some reason) (hended : s'.ended = some (.ownGrantEnded reason))
  | gaveUp (why : String) (hkind : t.kind ownExpiresAt = .dialFailure)
    (hmany : maxConsecutiveDcutrDialFailures ≤ s.consecutiveDialFailures + 1)
    (hended : s'.ended = some (.gaveUp why))
  | dial (hkind : t.kind ownExpiresAt = .dialFailure)
    (hfew : s.consecutiveDialFailures + 1 < maxConsecutiveDcutrDialFailures)
    (hdelay : t.delay = some (admissionRetryBackoff dcutrRetryBackoff true
      (UInt32.ofNat s.consecutiveDialFailures)))
    (hpaused : Paused ownExpiresAt r s') (hrefusals : s'.consecutiveRefusals = s.consecutiveRefusals)
    (hdials : s'.consecutiveDialFailures = s.consecutiveDialFailures + 1)
  | refused (hkind : t.kind ownExpiresAt = .definitiveRefusal)
    (hdelay : t.delay = some (admissionRetryBackoff dcutrRetryBackoff true s.consecutiveRefusals))
    (hpaused : Paused ownExpiresAt r s') (hrefusals : s'.consecutiveRefusals = s.consecutiveRefusals + 1)
    (hdials : s'.consecutiveDialFailures = 0)
  | other (hrow : (t.kind ownExpiresAt).inRow = false) (hdropped : t.kind ownExpiresAt ≠ .dropped)
    (hkind : t.kind ownExpiresAt ≠ .ownGrantRefusal)
    (hpaused : Paused ownExpiresAt r s') (hrefusals : s'.consecutiveRefusals = 0)
    (hdials : s'.consecutiveDialFailures = 0)

/-- What a join of a one-shot loop leads to. -/
inductive OneShotTurn (r : Round T) (s : LoopState T) (t : Turn T) (s' : LoopState T) : Prop where
  | settled (hsettles : t.settles = true) (hended : s'.ended.isSome = true)
    (hresult : ownExpiresAt = none → s'.ended = t.result)
  | dropped (expiry : ℕ) (hsettles : t.settles = false) (hown : ownExpiresAt = some expiry)
    (htold : r.expiredDuring = true) (hended : s'.ended = some (ownExpiryEnds expiry))
  | spent (hsettles : t.settles = false) (hspent : oneShotDcutrAdmissionRetries ≤ s.attempt)
    (hended : s'.ended = t.result) (hjoined : t.result.isSome = true)
  | retried (hsettles : t.settles = false) (hended : s'.ended = none)
    (hleft : s.attempt < oneShotDcutrAdmissionRetries) (hattempt : s'.attempt = s.attempt + 1)

/-- The join a round starts: at its first reading, and to its own outcome unless the timer of the own
grant drops it. -/
structure JoinOf (r : Round T) (t : Turn T) : Prop where
  startedAt : t.startedAt = r.now
  endedAt : t.endedAt = r.after
  joined : t.joined = if ownExpiresAt.isSome && r.expiredDuring then none else some r.joined

/-- A pass either ends in front of the join or starts one in time. -/
def PassOf (r : Round T) (s : LoopState T) (leads : Turn T → LoopState T → Prop) (s' : LoopState T) : Prop :=
  (∃ expiry, ownExpiresAt = some expiry ∧ expiry ≤ r.now ∧ s' = s.ends (ownExpiryEnds expiry)) ∨
    ∃ t : Turn T, s'.turns = s.turns ++ [t] ∧ JoinOf ownExpiresAt r t ∧
      (∀ expiry, ownExpiresAt = some expiry → t.startedAt < expiry) ∧ leads t s'

end

section
variable {label : String} {ownExpiresAt : Option ℕ} {s : LoopState T} {r : Round T}

/-- A pass of a loop that goes on, by what it does behind the join. -/
theorem pass_of_afterJoin {serveLoop : Bool} {leads : Turn T → LoopState T → Prop} (hs : s.ended = none)
    (hdropped : ∀ expiry, ownExpiresAt = some expiry → r.expiredDuring = true →
      leads ⟨r.now, none, r.after, none⟩ ((s.turn ⟨r.now, none, r.after, none⟩).ends (ownExpiryEnds expiry)))
    (hjoined : ∃ delay, (afterJoin label serveLoop ownExpiresAt s r).turns = s.turns ++
      [⟨r.now, some r.joined, r.after, delay⟩] ∧
      leads ⟨r.now, some r.joined, r.after, delay⟩ (afterJoin label serveLoop ownExpiresAt s r)) :
    PassOf ownExpiresAt r s leads (loopStep label serveLoop ownExpiresAt s r) := by
  obtain ⟨delay, hturns, hleads⟩ := hjoined
  have hgoes : ¬ s.ended.isSome = true := by
    rw [hs]
    exact Bool.false_ne_true
  unfold loopStep
  rw [if_neg hgoes]
  cases ownExpiresAt with
  | none => exact Or.inr ⟨_, hturns, ⟨rfl, rfl, rfl⟩, fun expiry h => absurd h nofun, hleads⟩
  | some expiry =>
    change PassOf (some expiry) r s leads (if expiry ≤ r.now then _ else _)
    by_cases hover : expiry ≤ r.now
    · rw [if_pos hover]
      exact Or.inl ⟨expiry, rfl, hover, rfl⟩
    · rw [if_neg hover]
      have hintime (e : ℕ) (he : some expiry = some e) : r.now < e := by
        obtain rfl := Option.some.inj he
        omega
      by_cases hduring : r.expiredDuring = true
      · rw [if_pos hduring]
        have hjoin : JoinOf (some expiry) r ⟨r.now, none, r.after, none⟩ := ⟨rfl, rfl, (if_pos hduring).symm⟩
        exact Or.inr ⟨_, rfl, hjoin, hintime, hdropped expiry rfl hduring⟩
      · rw [if_neg hduring]
        have hjoin : JoinOf (some expiry) r ⟨r.now, some r.joined, r.after, delay⟩ :=
          ⟨rfl, rfl, (if_neg hduring).symm⟩
        exact Or.inr ⟨_, hturns, hjoin, hintime, hleads⟩

/-- Paused behind a join: the backoff leaves everything else as it was. -/
theorem paused_turn (s' : LoopState T) (hs : s'.ended = none) :
    Paused ownExpiresAt r (backoffWithinGrant ownExpiresAt r s') ∧
      (backoffWithinGrant ownExpiresAt r s').turns = s'.turns ∧
      (backoffWithinGrant ownExpiresAt r s').consecutiveRefusals = s'.consecutiveRefusals ∧
      (backoffWithinGrant ownExpiresAt r s').consecutiveDialFailures = s'.consecutiveDialFailures := by
  unfold backoffWithinGrant
  split
  · rename_i expiry
    split
    · rename_i hexpired
      exact ⟨Or.inr ⟨expiry, rfl, hexpired, rfl⟩, rfl, rfl, rfl⟩
    · exact ⟨Or.inl hs, rfl, rfl, rfl⟩
  · exact ⟨Or.inl hs, rfl, rfl, rfl⟩

theorem kind_of_admission {now after : ℕ} {result : Except JoinFault T} {delay : Option ℕ}
    (h : ownRefusal ownExpiresAt after result = none) :
    Turn.kind ownExpiresAt ⟨now, some (.ok result), after, delay⟩ = admissionKind result := by
  change (if (ownRefusal ownExpiresAt after result).isSome = true then _ else _) = _
  rw [h]
  rfl

theorem kind_of_refusal {now after : ℕ} {result : Except JoinFault T} {delay : Option ℕ} {reason : String}
    (h : ownRefusal ownExpiresAt after result = some reason) :
    Turn.kind ownExpiresAt ⟨now, some (.ok result), after, delay⟩ = .ownGrantRefusal := by
  change (if (ownRefusal ownExpiresAt after result).isSome = true then _ else _) = _
  rw [h]
  rfl

theorem admissionKind_cases (result : Except JoinFault T) :
    admissionKind result = .definitiveRefusal ∨
      (admissionKind result).inRow = false ∧ admissionKind result ≠ .dropped ∧
        admissionKind result ≠ .ownGrantRefusal := by
  cases result with
  | ok a => exact Or.inr ⟨rfl, nofun, nofun⟩
  | error e =>
    unfold admissionKind
    dsimp only
    split_ifs
    · exact Or.inr ⟨rfl, nofun, nofun⟩
    · exact Or.inl rfl
    · exact Or.inr ⟨rfl, nofun, nofun⟩

/-- A definitive refusal lengthens the row, all else breaks it. -/
theorem dcutrLoopAction_serve (result : Except JoinFault T) (attempt retries : ℕ) (refusals : UInt32) :
    if admissionKind result = .definitiveRefusal then
      dcutrLoopAction result true attempt retries refusals =
        .retryReset (admissionRetryBackoff dcutrRetryBackoff true refusals) (refusals + 1)
    else ∃ delay, dcutrLoopAction result true attempt retries refusals = .retryReset delay 0 := by
  cases result with
  | ok a => exact ⟨dcutrRetryBackoff, rfl⟩
  | error e =>
    by_cases hexpired : e.isParkExpired = true
    · have hkind : admissionKind (.error e : Except JoinFault T) = .parkExpiry := if_pos hexpired
      rw [hkind, if_neg nofun]
      exact ⟨0, if_pos hexpired⟩
    · by_cases hrefused : e.isDefinitiveAdmissionRefusal = true
      · have hkind : admissionKind (.error e : Except JoinFault T) = .definitiveRefusal :=
          (if_neg hexpired).trans (if_pos hrefused)
        rw [if_pos hkind]
        exact (if_neg hexpired).trans (if_pos hrefused)
      · have hkind : admissionKind (.error e : Except JoinFault T) = .transientError :=
          (if_neg hexpired).trans (if_neg hrefused)
        rw [hkind, if_neg nofun]
        exact ⟨dcutrRetryBackoff, (if_neg hexpired).trans (if_neg hrefused)⟩

theorem afterJoin_error {serveLoop : Bool} {e : JoinFault} (h : r.joined = .error e) :
    afterJoin label serveLoop ownExpiresAt s r = afterDialFailure label serveLoop ownExpiresAt r e s := by
  unfold afterJoin
  rw [h]

theorem afterJoin_refusal {serveLoop : Bool} {result : Except JoinFault T} {reason : String}
    (h : r.joined = .ok result)
    (hown : ownRefusal ownExpiresAt r.after result = some reason) :
    afterJoin label serveLoop ownExpiresAt s r =
      ({ s with consecutiveDialFailures := 0 }.turn ⟨r.now, some (.ok result), r.after, none⟩).ends
        (.ownGrantEnded reason) := by
  unfold afterJoin
  rw [h]
  simp only [hown]

theorem afterJoin_admission {serveLoop : Bool} {result : Except JoinFault T} (h : r.joined = .ok result)
    (hown : ownRefusal ownExpiresAt r.after result = none) :
    afterJoin label serveLoop ownExpiresAt s r =
      afterAdmission serveLoop ownExpiresAt r result { s with consecutiveDialFailures := 0 } := by
  unfold afterJoin
  rw [h]
  simp only [hown]

theorem afterAdmission_reset {result : Except JoinFault T} {delay : ℕ} {refusals : UInt32}
    (h : dcutrLoopAction result true s.attempt oneShotDcutrAdmissionRetries s.consecutiveRefusals =
      .retryReset delay refusals) :
    afterAdmission true ownExpiresAt r result s =
      backoffWithinGrant ownExpiresAt r
        ({ s with attempt := 0, consecutiveRefusals := refusals }.turn ⟨r.now, some (.ok result), r.after,
          some delay⟩) := by
  unfold afterAdmission
  rw [h]

/-- Behind a join of a serve loop. -/
theorem afterJoin_serve (hs : s.ended = none) :
    ∃ delay, (afterJoin label true ownExpiresAt s r).turns = s.turns ++
      [⟨r.now, some r.joined, r.after, delay⟩] ∧
      ServeTurn ownExpiresAt r s ⟨r.now, some r.joined, r.after, delay⟩
        (afterJoin label true ownExpiresAt s r) := by
  cases hjoined : r.joined with
  | error e =>
    rw [afterJoin_error hjoined]
    unfold afterDialFailure
    rw [if_pos rfl]
    by_cases hmany : maxConsecutiveDcutrDialFailures ≤ s.consecutiveDialFailures + 1
    · have haction : dialFailureAction (s.consecutiveDialFailures + 1) = none := if_pos hmany
      simp only [haction]
      exact ⟨none, rfl, .gaveUp _ rfl hmany rfl⟩
    · have haction : dialFailureAction (s.consecutiveDialFailures + 1) =
          some (admissionRetryBackoff dcutrRetryBackoff true (UInt32.ofNat s.consecutiveDialFailures)) :=
            if_neg hmany
      simp only [haction]
      obtain ⟨hpaused, hturns, hrefusals, hdials⟩ := paused_turn (r := r)
        (LoopState.turn ⟨s.attempt, s.consecutiveRefusals, s.consecutiveDialFailures + 1, s.turns, s.ended⟩
          ⟨r.now, some (.error e), r.after, some (admissionRetryBackoff dcutrRetryBackoff true
            (UInt32.ofNat s.consecutiveDialFailures))⟩) hs
      exact ⟨_, hturns, .dial rfl (Nat.lt_of_not_le hmany) rfl hpaused hrefusals hdials⟩
  | ok result =>
    cases hown : ownRefusal ownExpiresAt r.after result with
    | some reason =>
      rw [afterJoin_refusal hjoined hown]
      exact ⟨none, rfl, .ownRefusal reason (kind_of_refusal hown) hown rfl⟩
    | none =>
      rw [afterJoin_admission hjoined hown]
      have hkind (delay : Option ℕ) : Turn.kind ownExpiresAt ⟨r.now, some (.ok result), r.after, delay⟩ =
          admissionKind result := kind_of_admission hown
      have haction := dcutrLoopAction_serve result s.attempt oneShotDcutrAdmissionRetries s.consecutiveRefusals
      split_ifs at haction with hrefused
      · rw [afterAdmission_reset (s := { s with consecutiveDialFailures := 0 }) haction]
        obtain ⟨hpaused, hturns, hrefusals, hdials⟩ := paused_turn (r := r)
          (LoopState.turn ⟨0, s.consecutiveRefusals + 1, 0, s.turns, s.ended⟩
            ⟨r.now, some (.ok result), r.after,
            some (admissionRetryBackoff dcutrRetryBackoff true s.consecutiveRefusals)⟩) hs
        exact ⟨_, hturns, .refused ((hkind _).trans hrefused) rfl hpaused hrefusals hdials⟩
      · obtain ⟨delay, haction⟩ := haction
        rw [afterAdmission_reset (s := { s with consecutiveDialFailures := 0 }) haction]
        obtain ⟨hpaused, hturns, hrefusals, hdials⟩ := paused_turn (r := r)
          (LoopState.turn ⟨0, 0, 0, s.turns, s.ended⟩ ⟨r.now, some (.ok result), r.after, some delay⟩) hs
        obtain ⟨hrow, hdropped, hother⟩ := (admissionKind_cases result).resolve_left hrefused
        rw [← hkind (some delay)] at hrow hdropped hother
        exact ⟨_, hturns, .other hrow hdropped hother hpaused hrefusals hdials⟩

/-- A pass of a serve loop. -/
theorem serve_pass (hs : s.ended = none) :
    PassOf ownExpiresAt r s (ServeTurn ownExpiresAt r s) (loopStep label true ownExpiresAt s r) := by
  apply pass_of_afterJoin hs
  · intro expiry hown hduring
    exact .dropped expiry rfl hown hduring rfl
  · exact afterJoin_serve hs

/-- Only an error that is no definitive refusal is retried, while the budget lasts. -/
theorem dcutrLoopAction_oneShot (result : Except JoinFault T) (attempt retries : ℕ) (refusals : UInt32) :
    dcutrLoopAction result false attempt retries refusals = .stop ∧
        ((∀ e, result = .error e → e.isDefinitiveAdmissionRefusal = true) ∨ retries ≤ attempt) ∨
      (∃ e, result = .error e ∧ e.isDefinitiveAdmissionRefusal = false) ∧ attempt < retries ∧
        ∃ delay, dcutrLoopAction result false attempt retries refusals =
          .retryBounded (attempt + 1) delay := by
  cases result with
  | ok a => exact Or.inl ⟨rfl, Or.inl nofun⟩
  | error e =>
    by_cases hrefused : e.isDefinitiveAdmissionRefusal = true
    · refine Or.inl ⟨if_pos hrefused, Or.inl (fun e' he => ?_)⟩
      obtain rfl := Except.error.inj he
      exact hrefused
    · by_cases hleft : attempt < retries
      · right
        have hagain : (true && decide (attempt < retries)) = true := by simp [hleft]
        refine ⟨⟨e, rfl, by simpa using hrefused⟩, hleft, if e.isParkExpired then 0 else dcutrRetryBackoff, ?_⟩
        exact (if_neg hrefused).trans (if_pos hagain)
      · have hspent : ¬ (true && decide (attempt < retries)) = true := by simp [hleft]
        exact Or.inl ⟨(if_neg hrefused).trans (if_neg hspent), Or.inr (Nat.le_of_not_lt hleft)⟩

/-- A refusal that ends the own grant is a definitive one. -/
theorem settles_of_ownRefusal {now after : ℕ} {result : Except JoinFault T} {reason : String}
    (h : ownRefusal ownExpiresAt after result = some reason) :
    Turn.settles (⟨now, some (.ok result), after, none⟩ : Turn T) = true := by
  cases result with
  | ok a => rfl
  | error e =>
    cases hrefusal : e.refusal with
    | none =>
      cases ownExpiresAt with
      | none => exact absurd h nofun
      | some expiry =>
        change e.ownGrantRefusal (some expiry) after = some reason at h
        unfold JoinFault.ownGrantRefusal at h
        rw [hrefusal] at h
        exact absurd h nofun
    | some refusal =>
      change (e.refusal.isSome || contains e.message "refused the channel join") = true
      rw [hrefusal]
      rfl

theorem settles_iff {now after : ℕ} {result : Except JoinFault T} {delay : Option ℕ} :
    Turn.settles (⟨now, some (.ok result), after, delay⟩ : Turn T) = true ↔
      ∀ e, result = .error e → e.isDefinitiveAdmissionRefusal = true := by
  cases result with
  | ok a => exact ⟨fun _ => nofun, fun _ => rfl⟩
  | error e =>
    constructor
    · intro h e' he
      obtain rfl := Except.error.inj he
      exact h
    · intro h
      exact h e rfl

/-- Behind a join of a one-shot loop. -/
theorem afterJoin_oneShot (hs : s.ended = none) :
    ∃ delay, (afterJoin label false ownExpiresAt s r).turns = s.turns ++
      [⟨r.now, some r.joined, r.after, delay⟩] ∧
      OneShotTurn ownExpiresAt r s ⟨r.now, some r.joined, r.after, delay⟩
        (afterJoin label false ownExpiresAt s r) := by
  cases hjoined : r.joined with
  | error e =>
    rw [afterJoin_error hjoined]
    exact ⟨none, rfl, .settled rfl rfl (fun _ => rfl)⟩
  | ok result =>
    cases hown : ownRefusal ownExpiresAt r.after result with
    | some reason =>
      rw [afterJoin_refusal hjoined hown]
      refine ⟨none, rfl, .settled (settles_of_ownRefusal hown) rfl (fun hnone => ?_)⟩
      rw [hnone] at hown
      exact absurd hown nofun
    | none =>
      rw [afterJoin_admission hjoined hown]
      unfold afterAdmission
      rcases dcutrLoopAction_oneShot result s.attempt oneShotDcutrAdmissionRetries s.consecutiveRefusals with
        ⟨hstop, hwhy⟩ | ⟨⟨e, he, hrefused⟩, hleft, delay, hagain⟩
      · simp only [hstop]
        refine ⟨none, rfl, ?_⟩
        cases hsettles : Turn.settles (⟨r.now, some (.ok result), r.after, none⟩ : Turn T) with
        | false =>
          have hspent := hwhy.resolve_left (fun h => by simp [settles_iff.mpr h] at hsettles)
          exact .spent hsettles hspent rfl rfl
        | true => exact .settled hsettles rfl (fun _ => rfl)
      · simp only [hagain]
        refine ⟨some delay, rfl, .retried ?_ hs hleft rfl⟩
        rw [he]
        exact hrefused

/-- A pass of a one-shot loop. -/
theorem oneShot_pass (hs : s.ended = none) :
    PassOf ownExpiresAt r s (OneShotTurn ownExpiresAt r s) (loopStep label false ownExpiresAt s r) := by
  apply pass_of_afterJoin hs
  · intro expiry hown hduring
    exact .dropped expiry rfl hown hduring rfl
  · exact afterJoin_oneShot hs

theorem loopStep_ended {serveLoop : Bool} (hs : s.ended.isSome = true) :
    loopStep label serveLoop ownExpiresAt s r = s := if_pos hs

end
end
end CtAgent.Channel.Dcutr
