import CtAgent.Lib.Run
import CtAgent.Lib.Semaphore
import CtAgent.Forward.Wire

/-! The session window: `SessionSend` with the takes that wait for it and the chunks that hold
part of it. Each block under the `owed` mutex is one step. -/
namespace CtAgent.Forward
open CtAgent.Lib

def dataChunkLen : ℕ := 16 * 1024
def sessionWindowMin : ℕ := 4 * dataChunkLen
def sessionWindowMax : ℕ := 16 * 1024 * 1024

/-- Bytes taken from the window and not acknowledged, per part; `sending` of them belong to a
frame that is not in the engine's queue yet. -/
structure SessionOwed where
  first : ℕ
  budget : ℕ
  sending : ℕ
  deriving DecidableEq, Repr

structure SessionSend (κ : Type*) where
  budget : Semaphore κ
  first : Semaphore κ
  budgetCap : ℕ
  firstCap : ℕ
  owed : SessionOwed
  deriving DecidableEq, Repr

/-- One chunk's bytes of the window, from the take until its frame is queued. -/
structure SessionSending where
  fromFirst : Bool
  bytes : ℕ
  deriving DecidableEq, Repr

namespace SessionSend
variable {κ : Type*}

/-- `none`: the peer granted no window. `error`: a window below the minimum. -/
def fromHello (window : UInt32) : Except Unit (Option (SessionSend κ)) :=
  let window := min window.toNat sessionWindowMax
  if window = 0 then .ok none
  else if window < sessionWindowMin then .error ()
  else
    let firstCap := min (window / 4) (4 * dataChunkLen)
    let budgetCap := window - firstCap
    .ok (some ⟨.new budgetCap, .new firstCap, budgetCap, firstCap, ⟨0, 0, 0⟩⟩)

def unacknowledged (s : SessionSend κ) : ℕ := s.owed.first + s.owed.budget - s.owed.sending

/-- The peer acknowledged `bytes`; `false` when that is more than is unacknowledged. -/
def acknowledge (bytes : ℕ) (s : SessionSend κ) : Bool × SessionSend κ :=
  if s.owed.first + s.owed.budget - s.owed.sending < bytes then (false, s)
  else
    let pay := min bytes s.owed.first
    (true, { s with
      owed := ⟨s.owed.first - pay, s.owed.budget - (bytes - pay), s.owed.sending⟩
      first := s.first.addPermits pay
      budget := s.budget.addPermits (bytes - pay) })

/-- The end of a take: the permits are forgotten and counted as owed. -/
def taken (fromFirst : Bool) (bytes : ℕ) (s : SessionSend κ) : SessionSend κ :=
  { s with owed :=
      ⟨s.owed.first + if fromFirst then bytes else 0,
       s.owed.budget + if fromFirst then 0 else bytes,
       s.owed.sending + bytes⟩ }

/-- What dropping a chunk gives back to `first` and to `budget`: to its own part what that part
still owes, the rest to the other. -/
def giveBack (c : SessionSending) (s : SessionSend κ) : ℕ × ℕ :=
  if c.fromFirst then
    let own := min c.bytes s.owed.first
    (own, min (c.bytes - own) s.owed.budget)
  else
    let own := min c.bytes s.owed.budget
    (min (c.bytes - own) s.owed.first, own)

def queued (c : SessionSending) (s : SessionSend κ) : SessionSend κ :=
  { s with owed := { s.owed with sending := s.owed.sending - c.bytes } }

/-- `Drop` of a chunk that was never queued. -/
def dropped (c : SessionSending) (s : SessionSend κ) : SessionSend κ :=
  if c.bytes = 0 then s
  else
    let back := s.giveBack c
    { s with
      owed := ⟨s.owed.first - back.1, s.owed.budget - back.2, s.owed.sending - c.bytes⟩
      first := s.first.addPermits back.1
      budget := s.budget.addPermits back.2 }

variable [DecidableEq κ]

/-- The first poll of `take`. A first chunk asks `first`, and `budget` while it waits there; the
future that loses is dropped with what it holds. -/
def take (k : κ) (firstChunk : Bool) (bytes : ℕ) (s : SessionSend κ) :
    Option SessionSending × SessionSend κ :=
  if firstChunk then
    match s.first.acquire k bytes with
    | (true, f) => (some ⟨true, bytes⟩, taken true bytes { s with first := f })
    | (false, f) =>
      match s.budget.acquire k bytes with
      | (true, b) => (some ⟨false, bytes⟩, taken false bytes { s with first := f.cancel k, budget := b })
      | (false, b) => (none, { s with first := f, budget := b })
  else
    match s.budget.acquire k bytes with
    | (true, b) => (some ⟨false, bytes⟩, taken false bytes { s with budget := b })
    | (false, b) => (none, { s with budget := b })

/-- A later poll of a take that waits. -/
def takePoll (k : κ) (s : SessionSend κ) : Option (SessionSending × SessionSend κ) :=
  match s.first.complete k with
  | some (n, f) => some (⟨true, n⟩, taken true n { s with first := f, budget := s.budget.cancel k })
  | none =>
    match s.budget.complete k with
    | some (n, b) => some (⟨false, n⟩, taken false n { s with first := s.first.cancel k, budget := b })
    | none => none

/-- A take that waits is cancelled. -/
def takeCancel (k : κ) (s : SessionSend κ) : SessionSend κ :=
  { s with first := s.first.cancel k, budget := s.budget.cancel k }

def waits (k : κ) (s : SessionSend κ) : Bool :=
  (s.first.waiter? k).isSome || (s.budget.waiter? k).isSome

end SessionSend

/-- The window as its pumps use it: the shared `SessionSend`, whose semaphores know the takes that
wait, and the chunks that were taken and are not queued yet. A pump is a key. -/
structure SessionWindow (κ : Type*) where
  send : SessionSend κ
  sending : List (κ × SessionSending)
  deriving DecidableEq, Repr

inductive WindowOp (κ : Type*) where
  | take (k : κ) (firstChunk : Bool) (bytes : ℕ)
  | poll (k : κ)
  | cancel (k : κ)
  | queued (k : κ)
  | drop (k : κ)
  | acknowledge (bytes : ℕ)
  deriving DecidableEq, Repr

namespace SessionWindow
variable {κ : Type*} [DecidableEq κ]

def holds (k : κ) (w : SessionWindow κ) : Option (κ × SessionSending) :=
  w.sending.find? (fun kc => kc.1 = k)

def take (k : κ) (firstChunk : Bool) (bytes : ℕ) (w : SessionWindow κ) : SessionWindow κ :=
  match w.send.take k firstChunk bytes with
  | (some c, s) => ⟨s, (k, c) :: w.sending⟩
  | (none, s) => ⟨s, w.sending⟩

def poll (k : κ) (w : SessionWindow κ) : Option (SessionWindow κ) :=
  (w.send.takePoll k).map (fun cs => ⟨cs.2, (k, cs.1) :: w.sending⟩)

def cancel (k : κ) (w : SessionWindow κ) : SessionWindow κ := ⟨w.send.takeCancel k, w.sending⟩

def release (k : κ) (w : SessionWindow κ) : List (κ × SessionSending) :=
  w.sending.eraseP (fun kc => kc.1 = k)

def queued (k : κ) (w : SessionWindow κ) : Option (SessionWindow κ) :=
  (w.holds k).map (fun kc => ⟨w.send.queued kc.2, w.release k⟩)

def drop (k : κ) (w : SessionWindow κ) : Option (SessionWindow κ) :=
  (w.holds k).map (fun kc => ⟨w.send.dropped kc.2, w.release k⟩)

def acknowledge (bytes : ℕ) (w : SessionWindow κ) : SessionWindow κ :=
  ⟨(w.send.acknowledge bytes).2, w.sending⟩

/-- A pump takes one chunk at a time: it neither waits nor holds a chunk when it starts a take. -/
def step (w : SessionWindow κ) : WindowOp κ → Option (SessionWindow κ)
  | .take k firstChunk bytes =>
    if 1 ≤ bytes ∧ bytes ≤ dataChunkLen ∧ w.send.waits k = false ∧ w.holds k = none then
      some (w.take k firstChunk bytes)
    else none
  | .poll k => w.poll k
  | .cancel k => some (w.cancel k)
  | .queued k => w.queued k
  | .drop k => w.drop k
  | .acknowledge bytes => some (w.acknowledge bytes)

/-- Per part: free permits, permits of waiting takes and what is owed make up the part. -/
structure Inv (firstCap budgetCap : ℕ) (w : SessionWindow κ) : Prop where
  first_cap : w.send.firstCap = firstCap
  budget_cap : w.send.budgetCap = budgetCap
  first_part : w.send.first.total + w.send.owed.first = firstCap
  budget_part : w.send.budget.total + w.send.owed.budget = budgetCap
  sending_sum : (w.sending.map (fun kc => kc.2.bytes)).sum = w.send.owed.sending
  sending_le : w.send.owed.sending ≤ w.send.owed.first + w.send.owed.budget

variable {firstCap budgetCap : ℕ} {w w' : SessionWindow κ}

omit [DecidableEq κ] in
theorem holds_bytes_le (h : w.Inv firstCap budgetCap) {kc : κ × SessionSending}
    (hk : kc ∈ w.sending) : kc.2.bytes ≤ w.send.owed.sending := by
  rw [← h.sending_sum]
  exact List.le_sum_of_mem (List.mem_map_of_mem hk)

omit [DecidableEq κ] in
/-- While a chunk is counted in `owed`, the clamps of `Drop` lose nothing of it. -/
theorem giveBack_exact (c : SessionSending) (s : SessionSend κ)
    (h : c.bytes ≤ s.owed.first + s.owed.budget) :
    (s.giveBack c).1 + (s.giveBack c).2 = c.bytes ∧
      (s.giveBack c).1 ≤ s.owed.first ∧ (s.giveBack c).2 ≤ s.owed.budget := by
  unfold SessionSend.giveBack
  split <;> dsimp only <;> omega

theorem inv_take (k : κ) (firstChunk : Bool) (bytes : ℕ) (h : w.Inv firstCap budgetCap) :
    (w.take k firstChunk bytes).Inv firstCap budgetCap := by
  obtain ⟨h1, h2, h3, h4, h5, h6⟩ := h
  unfold SessionWindow.take SessionSend.take
  cases firstChunk with
  | true =>
    cases hf : w.send.first.acquire k bytes with
    | mk ready f =>
      cases ready with
      | true =>
        have ht := Semaphore.total_acquire_ready hf
        constructor <;> simp [SessionSend.taken, *] <;> omega
      | false =>
        have ht := Semaphore.total_acquire_wait hf
        cases hb : w.send.budget.acquire k bytes with
        | mk ready b =>
          cases ready with
          | true =>
            have hu := Semaphore.total_acquire_ready hb
            constructor <;> simp [SessionSend.taken, *] <;> omega
          | false =>
            have hu := Semaphore.total_acquire_wait hb
            constructor <;> simp [*]
  | false =>
    cases hb : w.send.budget.acquire k bytes with
    | mk ready b =>
      cases ready with
      | true =>
        have hu := Semaphore.total_acquire_ready hb
        constructor <;> simp [SessionSend.taken, *] <;> omega
      | false =>
        have hu := Semaphore.total_acquire_wait hb
        constructor <;> simp [*]

theorem inv_poll (k : κ) (h : w.Inv firstCap budgetCap) (hw : w.poll k = some w') :
    w'.Inv firstCap budgetCap := by
  obtain ⟨h1, h2, h3, h4, h5, h6⟩ := h
  simp only [SessionWindow.poll, Option.map_eq_some_iff, SessionSend.takePoll] at hw
  obtain ⟨cs, hcs, rfl⟩ := hw
  split at hcs
  · rename_i n f hf
    have ht := Semaphore.total_complete hf
    cases hcs
    constructor <;> simp [SessionSend.taken, *] <;> omega
  · split at hcs
    · rename_i n b hb
      have ht := Semaphore.total_complete hb
      cases hcs
      constructor <;> simp [SessionSend.taken, *] <;> omega
    · cases hcs

theorem inv_cancel (k : κ) (h : w.Inv firstCap budgetCap) : (w.cancel k).Inv firstCap budgetCap := by
  obtain ⟨h1, h2, h3, h4, h5, h6⟩ := h
  constructor <;> simp [SessionWindow.cancel, SessionSend.takeCancel, *]

theorem inv_queued (k : κ) (h : w.Inv firstCap budgetCap) (hw : w.queued k = some w') :
    w'.Inv firstCap budgetCap := by
  simp only [SessionWindow.queued, Option.map_eq_some_iff] at hw
  obtain ⟨kc, hkc, rfl⟩ := hw
  have hs := sum_map_eraseP _ (fun kc : κ × SessionSending => kc.2.bytes) hkc
  obtain ⟨h1, h2, h3, h4, h5, h6⟩ := h
  constructor <;> simp only [SessionSend.queued, SessionWindow.release] <;> omega

theorem inv_drop (k : κ) (h : w.Inv firstCap budgetCap) (hw : w.drop k = some w') :
    w'.Inv firstCap budgetCap := by
  simp only [SessionWindow.drop, Option.map_eq_some_iff] at hw
  obtain ⟨kc, hkc, rfl⟩ := hw
  have hs := sum_map_eraseP _ (fun kc : κ × SessionSending => kc.2.bytes) hkc
  have hle := holds_bytes_le h (List.mem_of_find?_eq_some hkc)
  have hg := giveBack_exact kc.2 w.send (Nat.le_trans hle h.sending_le)
  obtain ⟨h1, h2, h3, h4, h5, h6⟩ := h
  unfold SessionSend.dropped
  by_cases hz : kc.2.bytes = 0
  · constructor <;> simp only [hz, ↓reduceIte, SessionWindow.release] <;> omega
  · constructor <;>
      simp only [hz, ↓reduceIte, SessionWindow.release, Semaphore.total_addPermits] <;> omega

omit [DecidableEq κ] in
theorem inv_acknowledge (bytes : ℕ) (h : w.Inv firstCap budgetCap) :
    (w.acknowledge bytes).Inv firstCap budgetCap := by
  obtain ⟨h1, h2, h3, h4, h5, h6⟩ := h
  unfold SessionWindow.acknowledge SessionSend.acknowledge
  split
  · exact ⟨h1, h2, h3, h4, h5, h6⟩
  · constructor <;> simp only [Semaphore.total_addPermits] <;> omega

theorem inv_step (w : SessionWindow κ) (op : WindowOp κ) (w' : SessionWindow κ)
    (h : w.Inv firstCap budgetCap) (hs : w.step op = some w') : w'.Inv firstCap budgetCap := by
  cases op with
  | take k firstChunk bytes =>
    simp only [SessionWindow.step] at hs
    split at hs
    · cases hs
      exact inv_take k firstChunk bytes h
    · cases hs
  | poll k => exact inv_poll k h hs
  | cancel k =>
    cases hs
    exact inv_cancel k h
  | queued k => exact inv_queued k h hs
  | drop k => exact inv_drop k h hs
  | acknowledge bytes =>
    cases hs
    exact inv_acknowledge bytes h

end SessionWindow

theorem fromHello_some {κ : Type*} {window : UInt32} {s : SessionSend κ}
    (h : SessionSend.fromHello window = .ok (some s)) :
    s.firstCap + s.budgetCap = min window.toNat sessionWindowMax ∧
      dataChunkLen ≤ s.firstCap ∧ dataChunkLen ≤ s.budgetCap ∧
      s = ⟨.new s.budgetCap, .new s.firstCap, s.budgetCap, s.firstCap, ⟨0, 0, 0⟩⟩ := by
  simp only [SessionSend.fromHello] at h
  split at h
  · cases h
  · split at h
    · cases h
    · cases h
      simp only [sessionWindowMin, dataChunkLen, sessionWindowMax] at *
      refine ⟨by omega, by omega, by omega, trivial⟩

theorem fromHello_inv {κ : Type*} {window : UInt32} {s : SessionSend κ}
    (h : SessionSend.fromHello window = .ok (some s)) :
    SessionWindow.Inv s.firstCap s.budgetCap ⟨s, []⟩ := by
  obtain ⟨-, -, -, hs⟩ := fromHello_some h
  rw [hs]
  refine ⟨rfl, rfl, ?_, ?_, rfl, Nat.zero_le _⟩
  · simp only [Semaphore.total_new, Nat.add_zero]
  · simp only [Semaphore.total_new, Nat.add_zero]

section Accounting
variable {κ : Type*} [DecidableEq κ] {window : UInt32} {s : SessionSend κ} {w : SessionWindow κ}

theorem reachable_window_inv (h : SessionSend.fromHello window = .ok (some s))
    (hr : Reachable SessionWindow.step ⟨s, []⟩ w) : w.Inv s.firstCap s.budgetCap :=
  reachable_invariant SessionWindow.inv_step (fromHello_inv h) hr

omit [DecidableEq κ] in
theorem acknowledge_false_iff (bytes : ℕ) (s : SessionSend κ) :
    (s.acknowledge bytes).1 = false ↔ s.unacknowledged < bytes := by
  unfold SessionSend.acknowledge SessionSend.unacknowledged
  split <;> simp_all

omit [DecidableEq κ] in
/-- Dropping a held chunk raises the permits of the two parts together by exactly its bytes. -/
theorem dropped_total {firstCap budgetCap : ℕ} (h : w.Inv firstCap budgetCap)
    {kc : κ × SessionSending} (hk : kc ∈ w.sending) :
    (w.send.dropped kc.2).first.total + (w.send.dropped kc.2).budget.total =
      w.send.first.total + w.send.budget.total + kc.2.bytes := by
  have hle := SessionWindow.holds_bytes_le h hk
  have hg := SessionWindow.giveBack_exact kc.2 w.send (Nat.le_trans hle h.sending_le)
  unfold SessionSend.dropped
  split
  · omega
  · simp only [Semaphore.total_addPermits]
    omega

theorem session_window_accounting (h : SessionSend.fromHello window = .ok (some s))
    (hr : Reachable SessionWindow.step ⟨s, []⟩ w) :
    (w.send.first.free + w.send.first.held + w.send.owed.first = s.firstCap ∧
      w.send.budget.free + w.send.budget.held + w.send.owed.budget = s.budgetCap) ∧
    (w.send.owed.sending ≤ w.send.owed.first + w.send.owed.budget ∧
      (∀ kc ∈ w.sending, kc.2.bytes ≤ w.send.owed.sending) ∧
      ∀ bytes ≤ w.send.unacknowledged,
        bytes - min bytes w.send.owed.first ≤ w.send.owed.budget) ∧
    (∀ kc ∈ w.sending,
      (w.send.giveBack kc.2).1 + (w.send.giveBack kc.2).2 = kc.2.bytes ∧
      (w.send.giveBack kc.2).1 ≤ w.send.owed.first ∧
      (w.send.giveBack kc.2).2 ≤ w.send.owed.budget ∧
      (w.send.dropped kc.2).first.total + (w.send.dropped kc.2).budget.total =
        w.send.first.total + w.send.budget.total + kc.2.bytes) ∧
    (w.send.unacknowledged ≤ min window.toNat sessionWindowMax ∧
      ∀ bytes, (w.send.acknowledge bytes).1 = false ↔ w.send.unacknowledged < bytes) := by
  have hi := reachable_window_inv h hr
  obtain ⟨hcap, -, -, -⟩ := fromHello_some h
  have h1 := hi.first_part
  have h2 := hi.budget_part
  have h3 := hi.sending_le
  have h4 : w.send.unacknowledged ≤ w.send.owed.first + w.send.owed.budget := Nat.sub_le _ _
  simp only [Semaphore.total] at h1 h2
  refine ⟨⟨h1, h2⟩, ⟨h3, fun kc hk => SessionWindow.holds_bytes_le hi hk, ?_⟩, ?_, ?_,
    fun bytes => acknowledge_false_iff bytes w.send⟩
  · intro bytes hb
    omega
  · intro kc hk
    have hle := SessionWindow.holds_bytes_le hi hk
    have hg := SessionWindow.giveBack_exact kc.2 w.send (Nat.le_trans hle h3)
    exact ⟨hg.1, hg.2.1, hg.2.2, dropped_total hi hk⟩
  · omega

end Accounting

/-- A first chunk fills `first`, the next one waits in both parts and is cancelled; the
acknowledgement then pays `first` for a chunk that came from `budget`. -/
def sampleOps : List (WindowOp ℕ) :=
  [.take 0 true 16384, .queued 0, .take 1 false 16384, .queued 1, .take 2 false 16384,
    .take 3 true 16384, .queued 3, .take 4 true 10, .cancel 4, .acknowledge 20000]

def sampleWindow : SessionWindow ℕ :=
  ⟨⟨.new 3616, .new 16384, 49152, 16384, ⟨0, 45536, 16384⟩⟩, [(2, ⟨false, 16384⟩)]⟩

theorem session_window_accounting_sample :
    ∃ s : SessionSend ℕ, SessionSend.fromHello 65536 = .ok (some s) ∧
      Reachable SessionWindow.step ⟨s, []⟩ sampleWindow ∧
      sampleWindow.send.unacknowledged ≤ min (65536 : UInt32).toNat sessionWindowMax := by
  have h : (SessionSend.fromHello 65536 : Except Unit (Option (SessionSend ℕ))) =
      .ok (some ⟨.new 49152, .new 16384, 49152, 16384, ⟨0, 0, 0⟩⟩) := by rfl
  have hr : Reachable SessionWindow.step
      ⟨⟨.new 49152, .new 16384, 49152, 16384, ⟨0, 0, 0⟩⟩, []⟩ sampleWindow :=
    ⟨sampleOps, by decide⟩
  exact ⟨_, h, hr, (session_window_accounting h hr).2.2.2.1⟩

end CtAgent.Forward
