import CtAgent.Lib.Run
import CtAgent.Serve.Revocation

/-! The accounting of the TLS-TCP fallback pool (`run_tcp_fallback_pool_on`, serve.rs). -/
namespace CtAgent.Serve

open CtAgent.Lib

/-- The interval is in nanoseconds. -/
structure ReprobePolicy where
  interval : ℕ
  confirmations : ℕ
  deriving DecidableEq, Repr

def quicReprobeInterval : ℕ := 30 * 10^9

def quicReprobeMaxDoublings : ℕ := 4

/-- The policy after so many short QUIC sessions in a row. -/
def reprobePolicyAfter (flaps : ℕ) : ReprobePolicy where
  interval := quicReprobeInterval * 2^min flaps quicReprobeMaxDoublings
  confirmations := if flaps = 0 then 1 else 2

/-- `n` and `max_serving` are these sizes, and at least 1. -/
structure PoolConfig where
  poolSize : UInt64
  maxServing : UInt64
  reprobe : Option ReprobePolicy
  deriving DecidableEq, Repr

def PoolConfig.n (c : PoolConfig) : ℕ := max c.poolSize.toNat 1

def PoolConfig.cap (c : PoolConfig) : ℕ := max c.maxServing.toNat 1

theorem PoolConfig.size_lt (c : PoolConfig) : c.n < 2^64 ∧ c.cap < 2^64 := by
  have hn := c.poolSize.toNat_lt
  have hcap := c.maxServing.toNat_lt
  unfold PoolConfig.n PoolConfig.cap
  omega

inductive ReprobeOutcome
  | unanswered
  | answered
  | registered
  | registerFailed
  deriving DecidableEq, Repr

/-- `quic_reprobe`: whether the edge answers the dial, and whether it accepts the registration. -/
def quicReprobe (register answers accepts : Bool) : ReprobeOutcome :=
  if !answers then .unanswered
  else if !register then .answered
  else if accepts then .registered
  else .registerFailed

/-- Only the probe that is to register does. -/
theorem quicReprobe_registered {register answers accepts : Bool}
    (h : quicReprobe register answers accepts = .registered) : register = true := by
  revert h
  cases register <;> cases answers <;> cases accepts <;> decide

inductive FallbackExit
  | quicRecovered
  | allWorkersGaveUp
  deriving DecidableEq, Repr

structure Pool where
  handles : Finset ℕ := ∅
  serving : Finset ℕ := ∅
  /-- the `JoinSet`: spawned and not joined yet -/
  workers : Finset ℕ := ∅
  givenUp : ℕ := 0
  nextId : ℕ := 0
  probeOkStreak : ℕ := 0
  /-- the probe in flight, and whether it registers -/
  probe : Option Bool := none
  exit : Option FallbackExit := none
  /-- a `handles.len() - serving.len()` went below zero -/
  underflow : Bool := false
  /-- the joined workers, with `true` for one that ended with `Err` or a panic -/
  ends : List (ℕ × Bool) := []
  probes : List ReprobeOutcome := []

namespace Pool

def parked (P : Pool) : ℕ := P.handles.card - P.serving.card

/-- A place where `handles.len() - serving.len()` is computed. -/
def subtract (P : Pool) : Pool :=
  { P with underflow := P.underflow || decide (P.handles.card < P.serving.card) }

def spawnOne (P : Pool) : Pool :=
  { P with
    handles := insert P.nextId P.handles
    workers := insert P.nextId P.workers
    nextId := P.nextId + 1 }

/-- The condition of the `while` of `top_up!`; `target + max_serving` is a `usize`, which wraps in a
release build. -/
def wants (c : PoolConfig) (P : Pool) : Bool :=
  decide (P.parked < c.n - P.givenUp) && decide (P.handles.card < (c.n - P.givenUp + c.cap) % 2^64)

/-- The `while` of `top_up!`, so many turns at most. -/
def topUpLoop (c : PoolConfig) : ℕ → Pool → Pool
  | 0, P => P
  | fuel+1, P =>
    if P.subtract.wants c then topUpLoop c fuel P.subtract.spawnOne else P.subtract

/-- Each turn adds a handle, so that the total cap ends the loop. -/
def topUp (c : PoolConfig) (P : Pool) : Pool := P.topUpLoop c (c.n + c.cap + 1)

/-- A consumed signal: a stale id is not marked. -/
def book (P : Pool) (id : ℕ) : Pool :=
  if id ∈ P.handles then { P with serving := insert id P.serving } else P

/-- `while let Ok(id) = consumed_rx.try_recv()`. -/
def drain (P : Pool) (ids : List ℕ) : Pool := ids.foldl book P

/-- A joined worker, by its id. -/
def remove (P : Pool) (id : ℕ) (failed : Bool) : Pool :=
  { P with
    serving := P.serving.erase id
    handles := P.handles.erase id
    workers := P.workers.erase id
    givenUp := if failed then P.givenUp + 1 else P.givenUp
    ends := P.ends ++ [(id, failed)] }

/-- A panicked worker carries no id: every finished handle goes. -/
def removeFinished (P : Pool) (id : ℕ) (finished : Finset ℕ) : Pool :=
  { P with
    serving := P.serving.filter (· ∈ P.handles \ finished)
    handles := P.handles \ finished
    workers := P.workers.erase id
    givenUp := P.givenUp + 1
    ends := P.ends ++ [(id, true)] }

end Pool

/-- What the pool's `select!` may see next. The signals drained beside a join or a registration are
those queued at that moment: any ids, stale and repeated ones among them. -/
inductive PoolEvent
  | consumed (id : ℕ)
  | joined (drained : List ℕ) (id : ℕ) (failed : Bool)
  /-- with the handles that are finished by then, the panicked worker's among them -/
  | panicked (drained : List ℕ) (id : ℕ) (finished : Finset ℕ)
  /-- `join_next` on an empty `JoinSet` -/
  | noneLeft (drained : List ℕ)
  | reprobeDue
  | probed (answers accepts : Bool) (drained : List ℕ)

namespace Pool

/-- One arm of the `select!`. -/
def arm (c : PoolConfig) (P : Pool) : PoolEvent → Option Pool
  | .consumed id => some ((P.book id).topUp c)
  | .joined drained id failed =>
    if id ∈ P.workers then
      -- the signals on their way are booked first, that of this worker among them
      let P := P.drain drained
      let was_serving := decide (id ∈ P.serving)
      let P := P.remove id failed
      -- the normal end of a consumed registration is not logged
      some ((if was_serving && !failed then P else P.subtract).topUp c)
    else none
  | .panicked drained id finished =>
    if id ∈ P.workers ∧ id ∈ finished then
      some (((P.drain drained).removeFinished id finished).subtract.topUp c)
    else none
  -- `join_next` of an empty set is `None` at once
  | .noneLeft drained => if P.workers = ∅ then some ((P.drain drained).topUp c) else none
  | .reprobeDue =>
    match c.reprobe, P.probe with
    | some policy, none =>
      -- the probe registers only if it would be the last confirmation
      some { P with probe := some (decide (policy.confirmations ≤ P.probeOkStreak + 1)) }
    | _, _ => none
  | .probed answers accepts drained =>
    match P.probe with
    | none => none
    | some register =>
      let outcome := quicReprobe register answers accepts
      let P := { P with probe := none, probes := P.probes ++ [outcome] }
      match outcome with
      | .unanswered => some { P with probeOkStreak := 0 }
      -- QUIC works, but not often enough in a row so far
      | .answered => some { P with probeOkStreak := P.probeOkStreak + 1 }
      | .registered => some { P.subtract.drain drained with exit := some .quicRecovered }
      -- the edge answers and refuses: counted as an outage
      | .registerFailed => some { P with probeOkStreak := 0 }

/-- The top of the loop. -/
def loopTop (P : Pool) : Pool :=
  if P.exit = none ∧ P.handles = ∅ then { P with exit := some .allWorkersGaveUp } else P

def step (c : PoolConfig) (P : Pool) (e : PoolEvent) : Option Pool :=
  match P.exit with
  | some _ => none
  | none => (P.arm c e).map loopTop

def start (c : PoolConfig) : Pool := (topUp c {}).loopTop

/-- The accounting that every part of an arm keeps. -/
structure Inv (c : PoolConfig) (P : Pool) : Prop where
  serving_sub : P.serving ⊆ P.handles
  handles_sub : P.handles ⊆ P.workers
  fresh : ∀ id ∈ P.workers, id < P.nextId
  ended : ∀ x ∈ P.ends, x.1 < P.nextId ∧ x.1 ∉ P.workers
  once : (P.ends.map Prod.fst).Nodup
  given : P.givenUp = (P.ends.filter (·.2)).length
  parked_le : (P.handles \ P.serving).card ≤ c.n
  total_le : P.handles.card ≤ c.n + c.cap
  whole : P.underflow = false

theorem parked_eq {P : Pool} (h : P.serving ⊆ P.handles) : P.parked = (P.handles \ P.serving).card :=
  (Finset.card_sdiff_of_subset h).symm

/-- What `top_up!` leaves. -/
def Filled (c : PoolConfig) (P : Pool) : Prop :=
  c.n - P.givenUp ≤ P.parked ∨ c.n - P.givenUp + c.cap ≤ P.handles.card

theorem filled_of_wants {c : PoolConfig} (hc : c.n + c.cap < 2^64) {P : Pool} (h : P.wants c = false) :
    P.Filled c := by
  have hmod : (c.n - P.givenUp + c.cap) % 2^64 = c.n - P.givenUp + c.cap := Nat.mod_eq_of_lt (by omega)
  simp only [wants, hmod, Bool.and_eq_false_iff, decide_eq_false_iff_not, not_lt] at h
  exact h

theorem inv_empty (c : PoolConfig) : Inv c {} := by
  constructor <;> simp

theorem Inv.subtract {c : PoolConfig} {P : Pool} (h : Inv c P) : P.subtract = P := by
  have hcard : ¬ P.handles.card < P.serving.card :=
    Nat.not_lt.mpr (Finset.card_le_card h.serving_sub)
  simp only [Pool.subtract, hcard, decide_false, Bool.or_false]

theorem Inv.fresh_handle {c : PoolConfig} {P : Pool} (h : Inv c P) : P.nextId ∉ P.handles := by
  intro hid
  have hlt := h.fresh P.nextId (h.handles_sub hid)
  omega

theorem Inv.spawnOne {c : PoolConfig} {P : Pool} (h : Inv c P) (hw : P.wants c = true) :
    Inv c P.spawnOne := by
  obtain ⟨hparked, htotal⟩ := (Bool.and_eq_true _ _).mp hw
  have hparked := of_decide_eq_true hparked
  have htotal := Nat.lt_of_lt_of_le (of_decide_eq_true htotal) (Nat.mod_le _ _)
  rw [parked_eq h.serving_sub] at hparked
  have hns : P.nextId ∉ P.serving := fun hid => h.fresh_handle (h.serving_sub hid)
  constructor
  · exact h.serving_sub.trans (Finset.subset_insert _ _)
  · exact Finset.insert_subset_insert _ h.handles_sub
  · intro id hid
    simp only [Pool.spawnOne]
    rcases Finset.mem_insert.mp hid with rfl | hid
    · omega
    · have hlt := h.fresh id hid
      omega
  · intro x hx
    obtain ⟨hlt, hnot⟩ := h.ended x hx
    simp only [Pool.spawnOne, Finset.mem_insert, not_or]
    exact ⟨by omega, by omega, hnot⟩
  · exact h.once
  · exact h.given
  · simp only [Pool.spawnOne, Finset.insert_sdiff_of_notMem _ hns]
    have hle := Finset.card_insert_le P.nextId (P.handles \ P.serving)
    omega
  · have hle := Finset.card_insert_le P.nextId P.handles
    simp only [Pool.spawnOne]
    omega
  · exact h.whole

/-- So many turns suffice for the loop to end by its condition. -/
theorem topUpLoop_spec {c : PoolConfig} (hc : c.n + c.cap < 2^64) (fuel : ℕ) {P : Pool} (h : Inv c P)
    (hf : c.n - P.givenUp + c.cap < fuel + P.handles.card) :
    Inv c (P.topUpLoop c fuel) ∧ (P.topUpLoop c fuel).Filled c := by
  induction fuel generalizing P with
  | zero => exact ⟨h, .inr (by simp only [topUpLoop]; omega)⟩
  | succ fuel ih =>
    simp only [topUpLoop, h.subtract]
    split
    · rename_i hw
      apply ih (h.spawnOne hw)
      simp only [Pool.spawnOne, Finset.card_insert_of_notMem h.fresh_handle]
      omega
    · rename_i hw
      exact ⟨h, filled_of_wants hc (Bool.not_eq_true _ ▸ hw)⟩

theorem Inv.topUp {c : PoolConfig} (hc : c.n + c.cap < 2^64) {P : Pool} (h : Inv c P) :
    Inv c (P.topUp c) ∧ (P.topUp c).Filled c := by
  apply topUpLoop_spec hc _ h
  omega

theorem Inv.book {c : PoolConfig} {P : Pool} (h : Inv c P) (id : ℕ) : Inv c (P.book id) := by
  unfold Pool.book
  split
  · rename_i hid
    have hsub : P.handles \ insert id P.serving ⊆ P.handles \ P.serving :=
      Finset.sdiff_subset_sdiff subset_rfl (Finset.subset_insert _ _)
    exact { h with
      serving_sub := Finset.insert_subset hid h.serving_sub
      parked_le := (Finset.card_le_card hsub).trans h.parked_le }
  · exact h

theorem Inv.drain {c : PoolConfig} {P : Pool} (h : Inv c P) (ids : List ℕ) : Inv c (P.drain ids) := by
  induction ids generalizing P with
  | nil => exact h
  | cons id ids ih => exact ih (h.book id)

/-- A joined worker is counted once. -/
theorem Inv.counted {c : PoolConfig} {P : Pool} (h : Inv c P) {id : ℕ} (hid : id ∈ P.workers)
    (failed : Bool) :
    (∀ x ∈ P.ends ++ [(id, failed)], x.1 < P.nextId ∧ x.1 ∉ P.workers.erase id) ∧
      ((P.ends ++ [(id, failed)]).map Prod.fst).Nodup ∧
      (if failed then P.givenUp + 1 else P.givenUp) =
        ((P.ends ++ [(id, failed)]).filter (·.2)).length := by
  refine ⟨?_, ?_, ?_⟩
  · intro x hx
    rcases List.mem_append.mp hx with hx | hx
    · obtain ⟨hlt, hnot⟩ := h.ended x hx
      exact ⟨hlt, fun hmem => hnot (Finset.mem_of_mem_erase hmem)⟩
    · rw [List.mem_singleton.mp hx]
      exact ⟨h.fresh id hid, Finset.notMem_erase id _⟩
  · rw [List.map_append, List.nodup_append]
    refine ⟨h.once, List.nodup_singleton _, ?_⟩
    intro a ha b hb hab
    obtain ⟨x, hx, rfl⟩ := List.mem_map.mp ha
    rw [List.map_singleton, List.mem_singleton] at hb
    apply (h.ended x hx).2
    rw [hab, hb]
    exact hid
  · rw [List.filter_append, List.length_append, ← h.given]
    cases failed <;> rfl

theorem Inv.remove {c : PoolConfig} {P : Pool} (h : Inv c P) {id : ℕ} (hid : id ∈ P.workers)
    (failed : Bool) : Inv c (P.remove id failed) := by
  obtain ⟨hended, honce, hgiven⟩ := h.counted hid failed
  have hsub : P.handles.erase id \ P.serving.erase id ⊆ P.handles \ P.serving := by
    intro i hi
    simp only [Finset.mem_sdiff, Finset.mem_erase, not_and] at hi ⊢
    exact ⟨hi.1.2, hi.2 hi.1.1⟩
  constructor
  · exact Finset.erase_subset_erase _ h.serving_sub
  · exact Finset.erase_subset_erase _ h.handles_sub
  · intro i hi
    exact h.fresh i (Finset.mem_of_mem_erase hi)
  · exact hended
  · exact honce
  · exact hgiven
  · exact (Finset.card_le_card hsub).trans h.parked_le
  · exact (Finset.card_le_card (Finset.erase_subset _ _)).trans h.total_le
  · exact h.whole

theorem Inv.removeFinished {c : PoolConfig} {P : Pool} (h : Inv c P) {id : ℕ} {finished : Finset ℕ}
    (hid : id ∈ P.workers) (hfin : id ∈ finished) : Inv c (P.removeFinished id finished) := by
  obtain ⟨hended, honce, hgiven⟩ := h.counted hid true
  have hsub : (P.handles \ finished) \ P.serving.filter (· ∈ P.handles \ finished) ⊆
      P.handles \ P.serving := by
    intro i hi
    simp only [Finset.mem_sdiff, Finset.mem_filter, not_and] at hi ⊢
    exact ⟨hi.1.1, fun hs => hi.2 hs hi.1.1 hi.1.2⟩
  constructor
  · intro i hi
    exact (Finset.mem_filter.mp hi).2
  · intro i hi
    -- the panicked worker's own handle is among the finished ones
    obtain ⟨hi, hnf⟩ := Finset.mem_sdiff.mp hi
    exact Finset.mem_erase.mpr ⟨fun h => hnf (h ▸ hfin), h.handles_sub hi⟩
  · intro i hi
    exact h.fresh i (Finset.mem_of_mem_erase hi)
  · exact hended
  · exact honce
  · exact hgiven
  · exact (Finset.card_le_card hsub).trans h.parked_le
  · exact (Finset.card_le_card Finset.sdiff_subset).trans h.total_le
  · exact h.whole

/-- What the worker side of an arm leaves alone. -/
def probing (P : Pool) : List ReprobeOutcome × Option Bool × ℕ × Option FallbackExit :=
  (P.probes, P.probe, P.probeOkStreak, P.exit)

theorem topUpLoop_probing (c : PoolConfig) (fuel : ℕ) (P : Pool) :
    (P.topUpLoop c fuel).probing = P.probing := by
  induction fuel generalizing P with
  | zero => rfl
  | succ fuel ih =>
    simp only [topUpLoop]
    split
    · rw [ih]
      rfl
    · rfl

theorem topUp_probing (c : PoolConfig) (P : Pool) : (P.topUp c).probing = P.probing :=
  topUpLoop_probing c _ P

theorem book_frame (P : Pool) (id : ℕ) :
    (P.book id).probing = P.probing ∧ (P.book id).workers = P.workers := by
  unfold book
  split <;> exact ⟨rfl, rfl⟩

theorem drain_frame (P : Pool) (ids : List ℕ) :
    (P.drain ids).probing = P.probing ∧ (P.drain ids).workers = P.workers := by
  induction ids generalizing P with
  | nil => exact ⟨rfl, rfl⟩
  | cons id ids ih =>
    obtain ⟨hp, hw⟩ := book_frame P id
    obtain ⟨hp', hw'⟩ := ih (P.book id)
    exact ⟨hp'.trans hp, hw'.trans hw⟩

/-- The streak is the run of answered probes at the end, and the probe in flight registers when it
completes the confirmations. -/
structure Probing (c : PoolConfig) (P : Pool) : Prop where
  streak : ∃ older, P.probes = older ++ List.replicate P.probeOkStreak .answered
  inFlight : ∀ register, P.probe = some register → ∃ policy, c.reprobe = some policy ∧
    register = decide (policy.confirmations ≤ P.probeOkStreak + 1)

theorem Probing.congr {c : PoolConfig} {P Q : Pool} (h : Probing c P) (he : Q.probing = P.probing) :
    Probing c Q := by
  simp only [probing, Prod.mk.injEq] at he
  obtain ⟨hprobes, hprobe, hstreak, -⟩ := he
  constructor
  · rw [hprobes, hstreak]
    exact h.streak
  · rw [hprobe, hstreak]
    exact h.inFlight

/-- The last `confirmations` probes were all answered, the last of them with a registration. -/
def Recovered (c : PoolConfig) (P : Pool) : Prop :=
  ∃ policy older, c.reprobe = some policy ∧
    P.probes = older ++ List.replicate (policy.confirmations - 1) .answered ++ [.registered]

/-- The pool at the top of its loop, or as it ended. -/
structure Sound (c : PoolConfig) (P : Pool) : Prop where
  inv : Inv c P
  filled : P.exit ≠ some .quicRecovered → P.Filled c
  probing : P.exit = none → Probing c P
  gaveUp : P.exit = some .allWorkersGaveUp → c.n ≤ P.givenUp
  recovered : P.exit = some .quicRecovered → Recovered c P

/-- Behind a `top_up!` an empty pool has given up. -/
theorem Sound.loopTop {c : PoolConfig} {P : Pool} (hi : Inv c P) (hf : P.Filled c) (hp : Probing c P)
    (he : P.exit = none) : Sound c P.loopTop := by
  unfold Pool.loopTop
  split
  · rename_i h
    have hcap : 1 ≤ c.cap := le_max_right _ _
    have hgave : c.n ≤ P.givenUp := by
      have hparked : P.parked = 0 := by simp only [parked, h.2, Finset.card_empty, Nat.zero_sub]
      have htotal : P.handles.card = 0 := by rw [h.2, Finset.card_empty]
      unfold Filled at hf
      omega
    exact ⟨{ hi with }, fun _ => hf, fun h => by simp at h, fun _ => hgave, fun h => by simp at h⟩
  · exact ⟨hi, fun _ => hf, fun _ => hp, fun h => by simp [he] at h, fun h => by simp [he] at h⟩

theorem sound_start {c : PoolConfig} (hfit : c.n + c.cap < 2^64) : Sound c (start c) := by
  obtain ⟨hi, hf⟩ := (inv_empty c).topUp hfit
  have hp := topUp_probing c {}
  have hempty : Probing c {} := ⟨⟨[], rfl⟩, by simp⟩
  exact Sound.loopTop hi hf (hempty.congr hp) (congrArg (fun x => x.2.2.2) hp)

/-- The arms of the workers: the bookkeeping, then a `top_up!`. -/
theorem Sound.toppedUp {c : PoolConfig} (hfit : c.n + c.cap < 2^64) {P Q : Pool} (h : Sound c P)
    (he : P.exit = none) (hq : Inv c Q) (hp : Q.probing = P.probing) : Sound c (Q.topUp c).loopTop := by
  obtain ⟨hi, hf⟩ := hq.topUp hfit
  have hprobing := (topUp_probing c Q).trans hp
  exact Sound.loopTop hi hf ((h.probing he).congr hprobing)
    ((congrArg (fun x => x.2.2.2) hprobing).trans he)

theorem Sound.reprobe {c : PoolConfig} {P : Pool} (h : Sound c P) (he : P.exit = none)
    {policy : ReprobePolicy} (hc : c.reprobe = some policy) :
    Sound c (Pool.loopTop
      { P with probe := some (decide (policy.confirmations ≤ P.probeOkStreak + 1)) }) := by
  set Q : Pool := { P with probe := some (decide (policy.confirmations ≤ P.probeOkStreak + 1)) }
  have hi : Inv c Q := { h.inv with }
  have hf : Q.Filled c := h.filled (by simp [he])
  apply Sound.loopTop hi hf _ he
  refine ⟨(h.probing he).streak, ?_⟩
  intro register hr
  exact ⟨policy, hc, (Option.some.inj hr).symm⟩

/-- An outcome that lets the pool go on. -/
theorem Sound.outcome {c : PoolConfig} {P : Pool} (h : Sound c P) (he : P.exit = none) (streak : ℕ)
    (outcome : ReprobeOutcome)
    (hs : streak = 0 ∨ outcome = .answered ∧ streak = P.probeOkStreak + 1) :
    Sound c (Pool.loopTop
      { P with probe := none, probes := P.probes ++ [outcome], probeOkStreak := streak }) := by
  set Q : Pool := { P with probe := none, probes := P.probes ++ [outcome], probeOkStreak := streak }
  have hi : Inv c Q := { h.inv with }
  have hf : Q.Filled c := h.filled (by simp [he])
  apply Sound.loopTop hi hf _ he
  refine ⟨?_, fun register hr => by cases hr⟩
  rcases hs with hs | ⟨ho, hs⟩
  · refine ⟨P.probes ++ [outcome], ?_⟩
    change P.probes ++ [outcome] = P.probes ++ [outcome] ++ List.replicate streak .answered
    rw [hs, List.replicate_zero, List.append_nil]
  · obtain ⟨older, hold⟩ := (h.probing he).streak
    refine ⟨older, ?_⟩
    change P.probes ++ [outcome] = older ++ List.replicate streak .answered
    rw [hs, ho, hold, List.replicate_succ', List.append_assoc]

theorem Sound.registered {c : PoolConfig} {P : Pool} (h : Sound c P) (he : P.exit = none)
    (hr : P.probe = some true) (drained : List ℕ) :
    Sound c (Pool.loopTop { (Pool.subtract { P with
        probe := none
        probes := P.probes ++ [.registered] }).drain drained with exit := some .quicRecovered }) := by
  set Q : Pool := { P with probe := none, probes := P.probes ++ [.registered] } with hQ
  have hq : Inv c Q := { h.inv with }
  have hprobes : (Q.drain drained).probes = P.probes ++ [.registered] :=
    congrArg (fun x => x.1) (drain_frame Q drained).1
  obtain ⟨policy, hc, hreg⟩ := (h.probing he).inFlight true hr
  have hconf := of_decide_eq_true hreg.symm
  obtain ⟨older, ho⟩ := (h.probing he).streak
  have hlast : Recovered c { Q.drain drained with exit := some .quicRecovered } := by
    refine ⟨policy, older ++ List.replicate (P.probeOkStreak - (policy.confirmations - 1)) .answered,
      hc, ?_⟩
    have hsplit : P.probeOkStreak =
        (P.probeOkStreak - (policy.confirmations - 1)) + (policy.confirmations - 1) := by omega
    calc (Q.drain drained).probes
        = older ++ List.replicate P.probeOkStreak .answered ++ [.registered] := by rw [hprobes, ho]
      _ = _ := by
        conv_lhs => rw [hsplit]
        rw [List.replicate_add, ← List.append_assoc]
  rw [hq.subtract]
  simp only [Pool.loopTop, reduceCtorEq, false_and, if_false]
  exact ⟨{ hq.drain drained with }, fun h => absurd rfl h, fun h => by simp at h,
    fun h => by simp at h, fun _ => hlast⟩

theorem Sound.step {c : PoolConfig} (hfit : c.n + c.cap < 2^64) {P P' : Pool} {e : PoolEvent} (h : Sound c P)
    (hs : P.step c e = some P') : Sound c P' := by
  unfold Pool.step at hs
  split at hs
  · simp at hs
  · rename_i he
    obtain ⟨Q, hQ, rfl⟩ := Option.map_eq_some_iff.mp hs
    cases e with
    | consumed id =>
      cases hQ
      exact h.toppedUp hfit he (h.inv.book id) (book_frame P id).1
    | joined drained id failed =>
      simp only [arm] at hQ
      split at hQ
      · rename_i hid
        obtain ⟨hframe, hworkers⟩ := drain_frame P drained
        have hdrain := h.inv.drain drained
        have hrem := hdrain.remove (hworkers ▸ hid) failed
        rw [hrem.subtract, ite_self] at hQ
        cases hQ
        exact h.toppedUp hfit he hrem hframe
      · simp at hQ
    | panicked drained id finished =>
      simp only [arm] at hQ
      split at hQ
      · rename_i hid
        obtain ⟨hframe, hworkers⟩ := drain_frame P drained
        have hrem := (h.inv.drain drained).removeFinished (hworkers ▸ hid.1) hid.2
        rw [hrem.subtract] at hQ
        cases hQ
        exact h.toppedUp hfit he hrem hframe
      · simp at hQ
    | noneLeft drained =>
      simp only [arm] at hQ
      split at hQ
      · cases hQ
        exact h.toppedUp hfit he (h.inv.drain drained) (drain_frame P drained).1
      · simp at hQ
    | reprobeDue =>
      simp only [arm] at hQ
      split at hQ
      · rename_i policy hc hp
        cases hQ
        exact h.reprobe he hc
      · simp at hQ
    | probed answers accepts drained =>
      simp only [arm] at hQ
      split at hQ
      · simp at hQ
      · rename_i register hreg
        split at hQ
        · cases hQ
          exact h.outcome he 0 _ (.inl rfl)
        · rename_i hout
          cases hQ
          exact h.outcome he _ _ (.inr ⟨hout, rfl⟩)
        · rename_i hout
          have hr : register = true := quicReprobe_registered hout
          cases hQ
          rw [hout]
          exact h.registered he (hr ▸ hreg) drained
        · cases hQ
          exact h.outcome he 0 _ (.inl rfl)

/-- The accounting of the pool in one state. -/
structure Accounted (c : PoolConfig) (P : Pool) : Prop where
  no_underflow : P.underflow = false ∧ P.serving ⊆ P.handles
  parked_le : P.parked ≤ c.n
  total_le : P.handles.card ≤ c.n + c.cap
  /-- behind every `top_up!` -/
  filled : P.exit ≠ some .quicRecovered → P.Filled c
  given_up : (P.ends.map Prod.fst).Nodup ∧ P.givenUp = (P.ends.filter (·.2)).length
  gave_up : P.exit = some .allWorkersGaveUp → c.n ≤ P.givenUp
  recovered : P.exit = some .quicRecovered → Recovered c P

theorem Sound.accounted {c : PoolConfig} {P : Pool} (h : Sound c P) : P.Accounted c where
  no_underflow := ⟨h.inv.whole, h.inv.serving_sub⟩
  parked_le := by
    rw [parked_eq h.inv.serving_sub]
    exact h.inv.parked_le
  total_le := h.inv.total_le
  filled := h.filled
  given_up := ⟨h.inv.once, h.inv.given⟩
  gave_up := h.gaveUp
  recovered := h.recovered

/-- The first workers are no more than the wrapped cap lets start. -/
theorem topUpLoop_card {c : PoolConfig} (fuel : ℕ) {P : Pool} (hg : P.givenUp = 0)
    (hcard : P.handles.card ≤ (c.n + c.cap) % 2^64) :
    (P.topUpLoop c fuel).givenUp = 0 ∧ (P.topUpLoop c fuel).handles.card ≤ (c.n + c.cap) % 2^64 := by
  induction fuel generalizing P with
  | zero => exact ⟨hg, hcard⟩
  | succ fuel ih =>
    simp only [topUpLoop]
    split
    · rename_i hw
      have htotal := of_decide_eq_true ((Bool.and_eq_true _ _).mp hw).2
      have hle := Finset.card_insert_le P.nextId P.handles
      simp only [Pool.subtract, hg, Nat.sub_zero] at htotal
      exact ih hg (by simp only [Pool.spawnOne, Pool.subtract]; omega)
    · exact ⟨hg, hcard⟩

theorem loopTop_keeps (P : Pool) : P.loopTop.handles = P.handles ∧ P.loopTop.serving = P.serving ∧
    P.loopTop.givenUp = P.givenUp ∧ (P.exit = none → P.loopTop.exit ≠ some .quicRecovered) := by
  unfold Pool.loopTop
  split
  · exact ⟨rfl, rfl, rfl, fun _ => by simp⟩
  · exact ⟨rfl, rfl, rfl, fun h => by simp [h]⟩

/-- A pool whose cap wraps does not fill up at its start. -/
theorem not_accounted_start {c : PoolConfig} (hwrap : 2^64 ≤ c.n + c.cap) : ¬ (start c).Accounted c := by
  intro h
  obtain ⟨hn, hcap⟩ := c.size_lt
  have hmod : (c.n + c.cap) % 2^64 = c.n + c.cap - 2^64 := by omega
  obtain ⟨hgiven, hcard⟩ := topUpLoop_card (c := c) (c.n + c.cap + 1) (P := {}) rfl (Nat.zero_le _)
  obtain ⟨hhandles, hserving, hgiven', hexit⟩ := loopTop_keeps (topUp c {})
  have hnone : (topUp c {}).exit = none := congrArg (fun x => x.2.2.2) (topUp_probing c {})
  have hfilled := h.filled (hexit hnone)
  unfold Filled parked start at hfilled
  rw [hhandles, hserving, hgiven'] at hfilled
  unfold topUp at hfilled
  rw [hgiven] at hfilled
  omega

end Pool

/-- The accounting holds in every state that the pool gets to, by any order of events, exactly where the
total cap is no more than a `usize` holds. -/
theorem pool_accounting_iff (c : PoolConfig) :
    (∀ P, Reachable (Pool.step c) (Pool.start c) P → P.Accounted c) ↔ c.n + c.cap < 2^64 := by
  constructor
  · intro h
    by_contra hwrap
    exact Pool.not_accounted_start (Nat.le_of_not_lt hwrap) (h _ ⟨[], rfl⟩)
  · intro hfit P hr
    have hs : Pool.Sound c P :=
      reachable_invariant (P := Pool.Sound c) (fun _ _ _ h hs => h.step hfit hs) (Pool.sound_start hfit) hr
    exact hs.accounted

/-- With every serving slot there is allowed, a pool of one starts no worker and reports that all gave up. -/
theorem no_worker_started : (Pool.start ⟨1, 18446744073709551615, none⟩).givenUp = 0 ∧
    ¬ ∀ P, Reachable (Pool.step ⟨1, 18446744073709551615, none⟩)
      (Pool.start ⟨1, 18446744073709551615, none⟩) P →
      P.Accounted ⟨1, 18446744073709551615, none⟩ := by
  have hexit : (Pool.start ⟨1, 18446744073709551615, none⟩).exit = some .allWorkersGaveUp := by decide
  have hgiven : (Pool.start ⟨1, 18446744073709551615, none⟩).givenUp = 0 := by decide
  refine ⟨hgiven, fun h => ?_⟩
  have hgave := (h _ ⟨[], rfl⟩).gave_up hexit
  rw [hgiven] at hgave
  exact absurd hgave (by decide)

end CtAgent.Serve
