import CtAgent.Serve.FallbackPool
import CtAgent.Serve.FallbackWorker

/-! The hand-over of the fallback pool to QUIC, step by step, between the steps of its workers. -/
namespace CtAgent.Serve

open CtAgent.Lib

/-- How a worker's task ended. -/
inductive TaskEnd
  | ok
  | gaveUp
  | panicked
  | cancelled
  deriving DecidableEq, Repr

/-- Where a worker stands. -/
inductive WorkerPhase
  | registering
  | parked (role : Role)
  /-- STOP is read and the signal not fired yet -/
  | stopRead
  /-- the signal is fired -/
  | relaying
  /-- the Client's first bytes came on a plain registration: there is no signal -/
  | relayingPlain
  | ended (how : TaskEnd)
  deriving DecidableEq, Repr

inductive WorkerStep
  | registered (role : Role)
  | parkEnded
  | stop
  | fire
  | firstBytes
  | relayEnded
  | gaveUp
  | panicked
  deriving DecidableEq, Repr

namespace WorkerPhase

/-- A Client is being relayed. -/
def relays : WorkerPhase → Bool
  | .stopRead => true
  | .relaying => true
  | .relayingPlain => true
  | _ => false

def isOver : WorkerPhase → Bool
  | .ended _ => true
  | _ => false

/-- Parked, or relaying a Client. -/
def up : WorkerPhase → Bool
  | .registering => false
  | .ended _ => false
  | _ => true

def next : WorkerPhase → WorkerStep → Option WorkerPhase
  | .registering, .registered role => some (.parked role)
  | .registering, .gaveUp => some (.ended .gaveUp)
  | .parked _, .parkEnded => some .registering
  -- STOP is read by the ping-capable roles, the first bytes by the others
  | .parked role, .stop => if role.pingCapable then some .stopRead else none
  | .parked role, .firstBytes => if role.pingCapable then none else some .relayingPlain
  -- `on_consumed` is behind the read of STOP: here a Client may be there unbooked
  | .stopRead, .fire => some .relaying
  | .relaying, .relayEnded => some (.ended .ok)
  -- a plain registration is followed by another one
  | .relayingPlain, .relayEnded => some .registering
  | .ended _, .panicked => none
  | _, .panicked => some (.ended .panicked)
  | _, _ => none

end WorkerPhase

/-- Where the pool stands: its loop, and then the parts of the arm that hands over. -/
inductive Mode
  | pooling
  | draining
  | aborting
  | detached
  deriving DecidableEq, Repr

/-- The pool, its workers and the queue of their signals. -/
structure HandOver where
  pool : Pool
  phase : ℕ → WorkerPhase := fun _ => .registering
  queue : List ℕ := []
  mode : Mode := .pooling
  /-- the workers whose handle's `abort` was called -/
  marked : Finset ℕ := ∅
  /-- the workers aborted, or ended by their abort, while they relayed a Client -/
  lost : List ℕ := []

inductive HandOverEvent
  | worker (id : ℕ) (w : WorkerStep)
  /-- an arm of the pool's loop, before the probe registers -/
  | pool (e : PoolEvent)
  /-- the probe's registration succeeds -/
  | registered
  /-- `try_recv` finds a signal -/
  | drained
  /-- `try_recv` finds none -/
  | drainEnded
  | abort (id : ℕ)
  | detachAll
  /-- an aborted worker ends at its next await -/
  | cancelled (id : ℕ)

namespace HandOver

/-- Whether the pool's loop may see the event now. A drain beside a join takes what is queued. -/
def sees (S : HandOver) : PoolEvent → Bool
  | .consumed id => decide (S.queue.head? = some id)
  | .joined drained id failed =>
    decide (drained = S.queue ∧ S.phase id = .ended (if failed then .gaveUp else .ok))
  | .panicked drained id finished =>
    decide (drained = S.queue ∧ S.phase id = .ended .panicked ∧ ∀ i ∈ finished, (S.phase i).isOver)
  | .noneLeft drained => decide (drained = S.queue)
  | .reprobeDue => true
  | .probed answers accepts drained =>
    decide (drained = [] ∧ ¬ (S.pool.probe = some true ∧ answers = true ∧ accepts = true))

/-- The queue behind the event. -/
def queueAfter (S : HandOver) : PoolEvent → List ℕ
  | .consumed _ => S.queue.tail
  | .joined _ _ _ => []
  | .panicked _ _ _ => []
  | .noneLeft _ => []
  | .reprobeDue => S.queue
  | .probed _ _ _ => S.queue

/-- The handles the hand-over aborts. -/
def idle (S : HandOver) : Finset ℕ := S.pool.handles \ S.pool.serving

def step (c : PoolConfig) (S : HandOver) : HandOverEvent → Option HandOver
  | .worker id w =>
    if id ∈ S.pool.workers then
      ((S.phase id).next w).map (fun p =>
        { S with
          phase := Function.update S.phase id p
          queue := if w = .fire then S.queue ++ [id] else S.queue })
    else none
  | .pool e =>
    -- in front of the hand-over the loop takes one event at a time
    if S.mode = .pooling ∧ S.sees e then
      (S.pool.step c e).map (fun P => { S with pool := P, queue := S.queueAfter e })
    else none
  | .registered =>
    -- the QUIC registration is there; the fallback pool hands over
    if S.mode = .pooling ∧ S.pool.exit = none ∧ S.pool.probe = some true then
      some { S with
        pool := { S.pool with probe := none, probes := S.pool.probes ++ [.registered] }
        mode := .draining }
    else none
  | .drained =>
    match S.mode, S.queue with
    -- `while let Ok(id) = rx.try_recv()`
    | .draining, id :: rest => some { S with pool := S.pool.book id, queue := rest }
    | _, _ => none
  | .drainEnded =>
    if S.mode = .draining ∧ S.queue = [] then some { S with mode := .aborting } else none
  | .abort id =>
    -- only a handle whose id is not in `serving` is aborted
    if S.mode = .aborting ∧ id ∈ S.idle ∧ id ∉ S.marked then
      some { S with
        marked := insert id S.marked
        lost := if (S.phase id).relays then S.lost ++ [id] else S.lost }
    else none
  | .detachAll =>
    -- what is left in the set is detached and goes on
    if S.mode = .aborting ∧ S.idle ⊆ S.marked then
      some { S with pool := { S.pool with exit := some .quicRecovered }, mode := .detached }
    else none
  | .cancelled id =>
    -- an abort takes effect at the worker's next suspension
    if id ∈ S.marked ∧ ¬ (S.phase id).isOver then
      some { S with
        phase := Function.update S.phase id (.ended .cancelled)
        lost := if (S.phase id).relays then S.lost ++ [id] else S.lost }
    else none

def start (c : PoolConfig) : HandOver := { pool := Pool.start c }

/-- When the drain ends every worker that relays has fired its signal; from then to the detach, and
behind its own abort, no worker starts to relay. -/
def inTime (S : HandOver) : HandOverEvent → Bool
  | .drainEnded => decide (∀ id ∈ S.pool.handles, S.phase id ≠ .stopRead ∧ S.phase id ≠ .relayingPlain)
  | .worker id .stop => decide (S.mode ≠ .aborting ∧ id ∉ S.marked)
  | .worker id .firstBytes => decide (S.mode ≠ .aborting ∧ id ∉ S.marked)
  | _ => true

end HandOver

/-- The workers an event takes out of the pool. -/
def PoolEvent.gone : PoolEvent → Finset ℕ
  | .joined _ id _ => {id}
  | .panicked _ _ finished => finished
  | _ => ∅

/-- The signals an event takes from the queue, in an arm that lets the pool go on. -/
def PoolEvent.signals : PoolEvent → List ℕ
  | .consumed id => [id]
  | .joined drained _ _ => drained
  | .panicked drained _ _ => drained
  | .noneLeft drained => drained
  | .reprobeDue => []
  | .probed _ _ _ => []

namespace Pool

/-- What an operation keeps of the workers that are not `gone`. -/
structure Keeps (gone : Finset ℕ) (P Q : Pool) : Prop where
  new : ∀ i ∈ Q.workers, i ∉ gone → i ∈ P.workers ∨ i ∈ Q.handles
  workers : ∀ i ∈ P.workers, i ∉ gone → i ∈ Q.workers
  handles : ∀ i ∈ P.handles, i ∉ gone → i ∈ Q.handles
  serving : ∀ i ∈ P.serving, i ∈ P.handles → i ∉ gone → i ∈ Q.serving

theorem Keeps.refl (gone : Finset ℕ) (P : Pool) : Keeps gone P P :=
  ⟨fun _ hi _ => .inl hi, fun _ hi _ => hi, fun _ hi _ => hi, fun _ hi _ _ => hi⟩

theorem Keeps.trans {gone : Finset ℕ} {P Q R : Pool} (h : Keeps gone P Q) (h' : Keeps gone Q R) :
    Keeps gone P R := by
  constructor
  · intro i hi hg
    rcases h'.new i hi hg with hi | hi
    · rcases h.new i hi hg with hi | hi
      · exact .inl hi
      · exact .inr (h'.handles i hi hg)
    · exact .inr hi
  · exact fun i hi hg => h'.workers i (h.workers i hi hg) hg
  · exact fun i hi hg => h'.handles i (h.handles i hi hg) hg
  · exact fun i hi hh hg => h'.serving i (h.serving i hi hh hg) (h.handles i hh hg) hg

/-- Equal collections. -/
theorem Keeps.of_eq {gone : Finset ℕ} {P Q : Pool} (hw : Q.workers = P.workers)
    (hh : Q.handles = P.handles) (hs : Q.serving = P.serving) : Keeps gone P Q :=
  ⟨fun _ hi _ => .inl (hw ▸ hi), fun _ hi _ => hw ▸ hi, fun _ hi _ => hh ▸ hi,
    fun _ hi _ _ => hs ▸ hi⟩

theorem keeps_spawnOne (gone : Finset ℕ) (P : Pool) : Keeps gone P P.spawnOne := by
  constructor
  · intro i hi _
    rcases Finset.mem_insert.mp hi with rfl | hi
    · exact .inr (Finset.mem_insert_self _ _)
    · exact .inl hi
  · exact fun i hi _ => Finset.mem_insert_of_mem hi
  · exact fun i hi _ => Finset.mem_insert_of_mem hi
  · exact fun i hi _ _ => hi

theorem keeps_topUpLoop (c : PoolConfig) (gone : Finset ℕ) (fuel : ℕ) (P : Pool) :
    Keeps gone P (P.topUpLoop c fuel) := by
  induction fuel generalizing P with
  | zero => exact Keeps.refl gone P
  | succ fuel ih =>
    have hsub : Keeps gone P P.subtract := Keeps.of_eq rfl rfl rfl
    simp only [topUpLoop]
    split
    · exact (hsub.trans (keeps_spawnOne gone _)).trans (ih _)
    · exact hsub

theorem keeps_topUp (c : PoolConfig) (gone : Finset ℕ) (P : Pool) : Keeps gone P (P.topUp c) :=
  keeps_topUpLoop c gone _ P

theorem keeps_loopTop (gone : Finset ℕ) (P : Pool) : Keeps gone P P.loopTop := by
  unfold loopTop
  split
  · exact Keeps.of_eq rfl rfl rfl
  · exact Keeps.refl gone P

theorem keeps_book (gone : Finset ℕ) (P : Pool) (id : ℕ) :
    Keeps gone P (P.book id) ∧ (P.book id).handles = P.handles ∧
      (id ∈ P.handles → id ∈ (P.book id).serving) := by
  unfold book
  split
  · refine ⟨⟨fun _ hi _ => .inl hi, fun _ hi _ => hi, fun _ hi _ => hi, ?_⟩, rfl, ?_⟩
    · exact fun i hi _ _ => Finset.mem_insert_of_mem hi
    · exact fun _ => Finset.mem_insert_self _ _
  · rename_i hid
    exact ⟨Keeps.refl gone P, rfl, fun h => absurd h hid⟩

/-- Every drained signal of a worker with a handle is booked. -/
theorem keeps_drain (gone : Finset ℕ) (P : Pool) (ids : List ℕ) :
    Keeps gone P (P.drain ids) ∧ (P.drain ids).handles = P.handles ∧
      ∀ i ∈ ids, i ∈ P.handles → i ∈ (P.drain ids).serving := by
  induction ids generalizing P gone with
  | nil => exact ⟨Keeps.refl gone P, rfl, fun i hi => by simp at hi⟩
  | cons id ids ih =>
    obtain ⟨hk, hh, hs⟩ := keeps_book gone P id
    obtain ⟨hk', hh', hs'⟩ := ih gone (P.book id)
    refine ⟨hk.trans hk', hh'.trans hh, ?_⟩
    intro i hi hmem
    rcases List.mem_cons.mp hi with rfl | hi
    · -- what is booked stays so
      exact (ih ∅ _).1.serving i (hs hmem) (hh ▸ hmem) (Finset.notMem_empty i)
    · exact hs' i hi (hh ▸ hmem)

theorem keeps_remove (P : Pool) (id : ℕ) (failed : Bool) : Keeps {id} P (P.remove id failed) := by
  have hne {i : ℕ} (hi : i ∉ ({id} : Finset ℕ)) : i ≠ id := fun h => hi (Finset.mem_singleton.mpr h)
  constructor
  · exact fun i hi _ => .inl (Finset.mem_of_mem_erase hi)
  · exact fun i hi hg => Finset.mem_erase.mpr ⟨hne hg, hi⟩
  · exact fun i hi hg => Finset.mem_erase.mpr ⟨hne hg, hi⟩
  · exact fun i hi _ hg => Finset.mem_erase.mpr ⟨hne hg, hi⟩

theorem keeps_removeFinished (P : Pool) {id : ℕ} {finished : Finset ℕ} (hid : id ∈ finished) :
    Keeps finished P (P.removeFinished id finished) := by
  constructor
  · exact fun i hi _ => .inl (Finset.mem_of_mem_erase hi)
  · exact fun i hi hg => Finset.mem_erase.mpr ⟨fun h => hg (h ▸ hid), hi⟩
  · exact fun i hi hg => Finset.mem_sdiff.mpr ⟨hi, hg⟩
  · exact fun i hi hh hg => Finset.mem_filter.mpr ⟨hi, Finset.mem_sdiff.mpr ⟨hh, hg⟩⟩

theorem keeps_step {c : PoolConfig} {P P' : Pool} {e : PoolEvent} (h : P.step c e = some P') :
    Keeps e.gone P P' ∧ ∀ i ∈ e.signals, i ∈ P.handles → i ∉ e.gone → i ∈ P'.serving := by
  -- the bookkeeping `Q` of an arm, and the `top_up!` behind it
  have htop (gone : Finset ℕ) (Q : Pool) : Keeps gone Q (Q.topUp c).loopTop :=
    (keeps_topUp c gone Q).trans (keeps_loopTop gone _)
  have hdrained (gone : Finset ℕ) (ids : List ℕ) (Q : Pool) (hQ : Keeps gone (P.drain ids) Q) :
      Keeps gone P (Q.topUp c).loopTop ∧
        ∀ i ∈ ids, i ∈ P.handles → i ∉ gone → i ∈ (Q.topUp c).loopTop.serving := by
    obtain ⟨hk, hh, hs⟩ := keeps_drain gone P ids
    have hafter := hQ.trans (htop gone Q)
    exact ⟨hk.trans hafter, fun i hi hmem hg => hafter.serving i (hs i hi hmem) (hh ▸ hmem) hg⟩
  have hsame (Q : Pool) (hw : Q.workers = P.workers) (hh : Q.handles = P.handles)
      (hs : Q.serving = P.serving) : Keeps ∅ P Q.loopTop :=
    (Keeps.of_eq hw hh hs).trans (keeps_loopTop _ _)
  unfold Pool.step at h
  split at h
  · simp at h
  · obtain ⟨Q, hQ, rfl⟩ := Option.map_eq_some_iff.mp h
    cases e with
    | consumed id =>
      cases hQ
      exact hdrained ∅ [id] _ (Keeps.refl _ _)
    | joined drained id failed =>
      simp only [arm] at hQ
      split at hQ
      · cases hQ
        apply hdrained {id} drained
        split
        · exact keeps_remove _ id failed
        · exact (keeps_remove _ id failed).trans (Keeps.of_eq rfl rfl rfl)
      · simp at hQ
    | panicked drained id finished =>
      simp only [arm] at hQ
      split at hQ
      · rename_i hid
        cases hQ
        apply hdrained finished drained
        exact (keeps_removeFinished _ hid.2).trans (Keeps.of_eq rfl rfl rfl)
      · simp at hQ
    | noneLeft drained =>
      simp only [arm] at hQ
      split at hQ
      · cases hQ
        exact hdrained ∅ drained _ (Keeps.refl _ _)
      · simp at hQ
    | reprobeDue =>
      refine ⟨?_, fun i hi => by simp [PoolEvent.signals] at hi⟩
      simp only [arm] at hQ
      split at hQ
      · cases hQ
        exact hsame _ rfl rfl rfl
      · simp at hQ
    | probed answers accepts drained =>
      refine ⟨?_, fun i hi => by simp [PoolEvent.signals] at hi⟩
      simp only [arm] at hQ
      split at hQ
      · simp at hQ
      · rename_i register hreg
        split at hQ
        · cases hQ
          exact hsame _ rfl rfl rfl
        · cases hQ
          exact hsame _ rfl rfl rfl
        · cases hQ
          set R : Pool := { P with
            probe := none
            probes := P.probes ++ [quicReprobe register answers accepts] }
          have hR : Keeps ∅ P R.subtract := Keeps.of_eq rfl rfl rfl
          have hfin : Keeps ∅ (R.subtract.drain drained)
              { R.subtract.drain drained with exit := some .quicRecovered } := Keeps.of_eq rfl rfl rfl
          exact ((hR.trans (keeps_drain ∅ _ drained).1).trans hfin).trans (keeps_loopTop ∅ _)
        · cases hQ
          exact hsame _ rfl rfl rfl

end Pool

namespace WorkerPhase

/-- A relay starts with STOP or, on a plain registration, with the first bytes. -/
theorem relays_next {p p' : WorkerPhase} {w : WorkerStep} (h : p.next w = some p')
    (hr : p'.relays = true) : p.relays = true ∨ w = .stop ∨ w = .firstBytes := by
  revert hr
  cases p <;> cases w <;> simp only [next, reduceCtorEq, Option.some.injEq] at h <;>
    first
    | (subst h; simp [relays])
    | simp [relays]

/-- The signal is fired on the way into the relay. -/
theorem relaying_next {p : WorkerPhase} {w : WorkerStep} (h : p.next w = some .relaying) : w = .fire := by
  cases p <;> cases w <;> simp [next] at h ⊢

theorem isOver_next {p p' : WorkerPhase} {w : WorkerStep} (h : p.next w = some p') : p.isOver = false := by
  cases p with
  | ended how => cases w <;> simp [next] at h
  | _ => rfl

theorem up_of_relays {p : WorkerPhase} (h : p.relays = true) : p.up = true ∧ p.isOver = false := by
  cases p <;> simp [relays, up, isOver] at h ⊢

theorem up_isOver {p : WorkerPhase} (h : p.up = true) : p.isOver = false := by
  cases p <;> simp [up, isOver] at h ⊢

end WorkerPhase

namespace HandOver

/-- What holds along a run in which every step is in time. -/
structure Inv (S : HandOver) : Prop where
  known : ∀ i, (S.phase i).up = true → i ∈ S.pool.workers
  handled : ∀ i ∈ S.pool.workers, (S.phase i).isOver = false → i ∈ S.pool.handles
  fired : ∀ i, S.phase i = .relaying → i ∈ S.queue ∨ i ∈ S.pool.serving
  unmarked : S.mode = .pooling ∨ S.mode = .draining → S.marked = ∅
  booked : S.mode = .aborting → ∀ i, (S.phase i).relays = true → i ∈ S.pool.serving
  safe : ∀ i ∈ S.marked, (S.phase i).relays = false
  lost : S.lost = []

theorem inv_start (c : PoolConfig) : Inv (start c) := by
  have hstart : Pool.Keeps ∅ {} (Pool.start c) :=
    (Pool.keeps_topUp c ∅ {}).trans (Pool.keeps_loopTop ∅ _)
  constructor
  · intro i hi
    simp [start, WorkerPhase.up] at hi
  · intro i hi _
    rcases hstart.new i hi (Finset.notMem_empty i) with hi | hi
    · simp at hi
    · exact hi
  · intro i hi
    simp [start] at hi
  · exact fun _ => rfl
  · intro hm
    simp [start] at hm
  · intro i hi
    simp [start] at hi
  · rfl

theorem Inv.worker {S : HandOver} (h : Inv S) {id : ℕ} {w : WorkerStep} {p : WorkerPhase}
    (hid : id ∈ S.pool.workers) (hp : (S.phase id).next w = some p)
    (hok : S.inTime (.worker id w) = true) :
    Inv { S with
      phase := Function.update S.phase id p
      queue := if w = .fire then S.queue ++ [id] else S.queue } := by
  have hother {i : ℕ} (hi : i ≠ id) : Function.update S.phase id p i = S.phase i :=
    Function.update_of_ne hi _ _
  -- a relay that starts now starts in time
  have hstarts : p.relays = true → (S.phase id).relays = true ∨ S.mode ≠ .aborting ∧ id ∉ S.marked := by
    intro hr
    rcases WorkerPhase.relays_next hp hr with hr | rfl | rfl
    · exact .inl hr
    · exact .inr (of_decide_eq_true hok)
    · exact .inr (of_decide_eq_true hok)
  constructor
  · intro i hi
    by_cases hne : i = id
    · exact hne ▸ hid
    · simp only [hother hne] at hi
      exact h.known i hi
  · intro i hi ho
    by_cases hne : i = id
    · subst hne
      exact h.handled i hid (WorkerPhase.isOver_next hp)
    · simp only [hother hne] at ho
      exact h.handled i hi ho
  · intro i hi
    by_cases hne : i = id
    · subst hne
      simp only [Function.update_self] at hi
      subst hi
      simp only [WorkerPhase.relaying_next hp, if_true]
      exact .inl (by simp)
    · simp only [hother hne] at hi
      rcases h.fired i hi with hq | hs
      · left
        split
        · exact List.mem_append_left _ hq
        · exact hq
      · exact .inr hs
  · exact h.unmarked
  · intro hm i hi
    by_cases hne : i = id
    · subst hne
      simp only [Function.update_self] at hi
      rcases hstarts hi with hr | hr
      · exact h.booked hm i hr
      · exact absurd hm hr.1
    · simp only [hother hne] at hi
      exact h.booked hm i hi
  · intro i hi
    by_cases hne : i = id
    · subst hne
      simp only [Function.update_self]
      by_contra hr
      rw [Bool.not_eq_false] at hr
      rcases hstarts hr with hr | hr
      · exact Bool.noConfusion ((h.safe i hi).symm.trans hr)
      · exact hr.2 hi
    · simp only [hother hne]
      exact h.safe i hi
  · exact h.lost

/-- The pool's loop goes on: what it takes from the queue it books, and what it drops is over. -/
theorem Inv.pool {c : PoolConfig} {S : HandOver} (h : Inv S) {e : PoolEvent} {P : Pool}
    (hm : S.mode = .pooling) (he : S.sees e = true) (hP : S.pool.step c e = some P) :
    Inv { S with pool := P, queue := S.queueAfter e } := by
  obtain ⟨hk, hsig⟩ := Pool.keeps_step hP
  have hgone : ∀ i ∈ e.gone, (S.phase i).isOver = true := by
    intro i hi
    cases e with
    | joined drained id failed =>
      have hseen := of_decide_eq_true he
      rw [Finset.mem_singleton.mp hi, hseen.2]
      rfl
    | panicked drained id finished =>
      have hseen := of_decide_eq_true he
      exact hseen.2.2 i hi
    | _ => simp [PoolEvent.gone] at hi
  have hhere {i : ℕ} (hi : (S.phase i).isOver = false) : i ∉ e.gone := by
    intro hg
    rw [hgone i hg] at hi
    exact Bool.noConfusion hi
  have hqueue : ∀ i ∈ S.queue, i ∈ S.queueAfter e ∨ i ∈ e.signals := by
    intro i hi
    cases e with
    | consumed id =>
      have hhead := of_decide_eq_true he
      obtain ⟨rest, hq⟩ := List.head?_eq_some_iff.mp hhead
      simp only [queueAfter, PoolEvent.signals, hq, List.tail_cons, List.mem_singleton]
      rw [hq] at hi
      exact (List.mem_cons.mp hi).symm
    | joined drained id failed => exact .inr ((of_decide_eq_true he).1 ▸ hi)
    | panicked drained id finished => exact .inr ((of_decide_eq_true he).1 ▸ hi)
    | noneLeft drained => exact .inr (of_decide_eq_true he ▸ hi)
    | reprobeDue => exact .inl hi
    | probed answers accepts drained => exact .inl hi
  constructor
  · intro i hi
    have hover := WorkerPhase.up_isOver hi
    exact hk.workers i (h.known i hi) (hhere hover)
  · intro i hi ho
    rcases hk.new i hi (hhere ho) with hw | hh
    · exact hk.handles i (h.handled i hw ho) (hhere ho)
    · exact hh
  · intro i hi
    have hup : (S.phase i).relays = true := by simp only at hi; rw [hi]; rfl
    obtain ⟨hup, hover⟩ := WorkerPhase.up_of_relays hup
    have hhandle := h.handled i (h.known i hup) hover
    rcases h.fired i hi with hq | hs
    · rcases hqueue i hq with hq | hsig'
      · exact .inl hq
      · exact .inr (hsig i hsig' hhandle (hhere hover))
    · exact .inr (hk.serving i hs hhandle (hhere hover))
  · exact h.unmarked
  · intro hab
    simp [hm] at hab
  · exact h.safe
  · exact h.lost

/-- The worker that ends by its abort was relaying no one. -/
theorem Inv.cancelled {S : HandOver} (h : Inv S) {id : ℕ} (hid : id ∈ S.marked) :
    Inv { S with
      phase := Function.update S.phase id (.ended .cancelled)
      lost := if (S.phase id).relays then S.lost ++ [id] else S.lost } := by
  have hother {i : ℕ} {f : WorkerPhase → Bool} (hf : f (.ended .cancelled) = false)
      (hi : f (Function.update S.phase id (.ended .cancelled) i) = true) : f (S.phase i) = true := by
    by_cases hne : i = id
    · rw [hne, Function.update_self, hf] at hi
      exact Bool.noConfusion hi
    · rwa [Function.update_of_ne hne] at hi
  constructor
  · exact fun i hi => h.known i (hother rfl hi)
  · intro i hi ho
    apply h.handled i hi
    by_cases hne : i = id
    · simp only [hne, Function.update_self, WorkerPhase.isOver] at ho
      exact Bool.noConfusion ho
    · simpa only [Function.update_of_ne hne] using ho
  · intro i hi
    apply h.fired i
    by_cases hne : i = id
    · simp [hne] at hi
    · simpa only [Function.update_of_ne hne] using hi
  · exact h.unmarked
  · exact fun hm i hi => h.booked hm i (hother rfl hi)
  · intro i hi
    by_contra hr
    rw [Bool.not_eq_false] at hr
    exact Bool.noConfusion ((h.safe i hi).symm.trans (hother rfl hr))
  · simp only [h.safe id hid, Bool.false_eq_true, if_false]
    exact h.lost

theorem Inv.step {c : PoolConfig} {S S' : HandOver} {e : HandOverEvent} (h : Inv S)
    (hs : guarded (HandOver.step c) inTime S e = some S') : Inv S' := by
  obtain ⟨hok, hs⟩ := guarded_eq_some.mp hs
  cases e with
  | worker id w =>
    simp only [HandOver.step] at hs
    split at hs
    · rename_i hid
      obtain ⟨p, hp, rfl⟩ := Option.map_eq_some_iff.mp hs
      exact h.worker hid hp hok
    · simp at hs
  | pool e =>
    simp only [HandOver.step] at hs
    split at hs
    · rename_i hm
      obtain ⟨P, hP, rfl⟩ := Option.map_eq_some_iff.mp hs
      exact h.pool hm.1 hm.2 hP
    · simp at hs
  | registered =>
    simp only [HandOver.step] at hs
    split at hs
    · rename_i hm
      cases hs
      exact { h with
        unmarked := fun _ => h.unmarked (.inl hm.1)
        booked := fun hab => by simp at hab }
    · simp at hs
  | drained =>
    simp only [HandOver.step] at hs
    split at hs
    · rename_i id rest hm hq
      cases hs
      obtain ⟨hk, -, hb⟩ := Pool.keeps_book ∅ S.pool id
      have hhere (i : ℕ) : i ∉ (∅ : Finset ℕ) := Finset.notMem_empty i
      constructor
      · exact fun i hi => hk.workers i (h.known i hi) (hhere i)
      · intro i hi ho
        rcases hk.new i hi (hhere i) with hw | hh
        · exact hk.handles i (h.handled i hw ho) (hhere i)
        · exact hh
      · intro i hi
        have hr : (S.phase i).relays = true := by simp only at hi; rw [hi]; rfl
        obtain ⟨hup, hover⟩ := WorkerPhase.up_of_relays hr
        have hhandle := h.handled i (h.known i hup) hover
        rcases h.fired i hi with hq' | hs
        · rw [hq] at hq'
          rcases List.mem_cons.mp hq' with rfl | hq'
          · exact .inr (hb hhandle)
          · exact .inl hq'
        · exact .inr (hk.serving i hs hhandle (hhere i))
      · exact fun _ => h.unmarked (.inr hm)
      · intro hab
        simp [hm] at hab
      · exact h.safe
      · exact h.lost
    · simp at hs
  | drainEnded =>
    simp only [HandOver.step] at hs
    split at hs
    · rename_i hm
      cases hs
      have hfired := of_decide_eq_true hok
      refine { h with unmarked := fun hp => by simp at hp, booked := ?_ }
      intro _ i hi
      -- it has a handle, so it is past its signal, and the queue is empty
      obtain ⟨hup, hover⟩ := WorkerPhase.up_of_relays hi
      obtain ⟨hstop, hplain⟩ := hfired i (h.handled i (h.known i hup) hover)
      have hrel : S.phase i = .relaying := by
        simp only at hi
        revert hi hstop hplain
        cases S.phase i <;> simp [WorkerPhase.relays]
      rcases h.fired i hrel with hq | hs
      · simp [hm.2] at hq
      · exact hs
    · simp at hs
  | abort id =>
    simp only [HandOver.step] at hs
    split at hs
    · rename_i hm
      cases hs
      have hidle : (S.phase id).relays = false := by
        by_contra hr
        rw [Bool.not_eq_false] at hr
        exact (Finset.mem_sdiff.mp hm.2.1).2 (h.booked hm.1 id hr)
      refine { h with unmarked := ?_, safe := ?_, lost := ?_ }
      · intro hp
        simp [hm.1] at hp
      · intro i hi
        rcases Finset.mem_insert.mp hi with rfl | hi
        · exact hidle
        · exact h.safe i hi
      · simp only [hidle, Bool.false_eq_true, if_false]
        exact h.lost
    · simp at hs
  | detachAll =>
    simp only [HandOver.step] at hs
    split at hs
    · cases hs
      exact { h with
        unmarked := fun hp => by simp at hp
        booked := fun hab => by simp at hab }
    · simp at hs
  | cancelled id =>
    simp only [HandOver.step] at hs
    split at hs
    · rename_i hm
      cases hs
      exact h.cancelled hm.1
    · simp at hs

end HandOver

/-- In a run whose steps are in time no worker is aborted while it relays a Client, and none that
relays ends by its abort. -/
theorem hand_over_cuts_nothing {c : PoolConfig} {S : HandOver}
    (h : Reachable (guarded (HandOver.step c) HandOver.inTime) (HandOver.start c) S) : S.lost = [] := by
  have hi : HandOver.Inv S :=
    reachable_invariant (P := HandOver.Inv) (fun _ _ _ h hs => h.step hs) (HandOver.inv_start c) h
  exact hi.lost

/-- One consumed worker keeps its Client while the parked one is aborted. -/
theorem hand_over_cuts_nothing_sample : ∃ S,
    run (guarded (HandOver.step ⟨1, 1, some (reprobePolicyAfter 0)⟩) HandOver.inTime)
      (HandOver.start ⟨1, 1, some (reprobePolicyAfter 0)⟩)
      [.worker 0 (.registered .K), .worker 0 .stop, .worker 0 .fire, .pool (.consumed 0),
        .worker 1 (.registered .K), .pool .reprobeDue, .registered, .drainEnded, .abort 1, .detachAll,
        .cancelled 1] = some S ∧
    S.phase 0 = .relaying ∧ S.lost = [] := by
  have hphase : (run (guarded (HandOver.step ⟨1, 1, some (reprobePolicyAfter 0)⟩) HandOver.inTime)
      (HandOver.start ⟨1, 1, some (reprobePolicyAfter 0)⟩)
      [.worker 0 (.registered .K), .worker 0 .stop, .worker 0 .fire, .pool (.consumed 0),
        .worker 1 (.registered .K), .pool .reprobeDue, .registered, .drainEnded, .abort 1, .detachAll,
        .cancelled 1]).map (fun S => S.phase 0) = some .relaying := by decide
  obtain ⟨S, hS, hx⟩ := Option.map_eq_some_iff.mp hphase
  exact ⟨S, hS, hx, hand_over_cuts_nothing ⟨_, hS⟩⟩

/-- A K worker reads STOP just behind the drain, and an A worker relays without a signal: both are
aborted over their Clients. -/
theorem late_and_plain_clients_cut :
    ¬ ∀ (c : PoolConfig) (S : HandOver), Reachable (HandOver.step c) (HandOver.start c) S → S.lost = [] := by
  intro h
  have hlost : (run (HandOver.step ⟨2, 1, some (reprobePolicyAfter 0)⟩)
      (HandOver.start ⟨2, 1, some (reprobePolicyAfter 0)⟩)
      [.worker 0 (.registered .K), .worker 1 (.registered .A), .worker 1 .firstBytes, .pool .reprobeDue,
        .registered, .drainEnded, .worker 0 .stop, .worker 0 .fire, .abort 0, .abort 1]).map
      HandOver.lost = some [0, 1] := by decide
  obtain ⟨S, hS, hx⟩ := Option.map_eq_some_iff.mp hlost
  rw [h _ S ⟨_, hS⟩] at hx
  simp at hx

end CtAgent.Serve
