import CtAgent.Forward.Engine
import CtAgent.Forward.PumpMoves

/-! The tables of an engine against an arbitrary peer: what holds between `entries`, `running` and
the tasks, and the counters of a credited stream, after every sequence of steps. -/
namespace CtAgent.Forward
open CtAgent.Lib

/-- What the up half asks its credit for. -/
def Up.asks : Up → List ℕ
  | .credit chunk => [chunk.length]
  | _ => []

/-- The counters a stream's task shares with its entry; only a chunk that waits for credit is a
waiter of the credit. -/
structure Task.Counted (t : Task) : Prop where
  pending_eq : t.credited = true → t.ended = false → t.pending = (t.inbound.map StreamIn.len).sum
  pending_le : t.pending ≤ fcWindow
  free_le : t.ended = false → t.credit.free ≤ fcWindow
  waiting : t.credit.waiters.map Waiter.need = t.up.asks

namespace Credit
variable {n : ℕ} {s c : Semaphore Unit}

theorem grant_need (n : ℕ) (ws : List (Waiter Unit)) :
    (Semaphore.grant n ws).2.map Waiter.need = ws.map Waiter.need := by
  induction ws generalizing n with
  | nil => rfl
  | cons w ws ih => simp [Semaphore.grant, ih]

theorem acquire_ready (h : s.acquire () n = (true, c)) : c.waiters = s.waiters := by
  unfold Semaphore.acquire at h
  split at h
  · cases h
    rfl
  · cases h

theorem acquire_wait (h : s.acquire () n = (false, c)) :
    c.waiters.map Waiter.need = s.waiters.map Waiter.need ++ [n] := by
  unfold Semaphore.acquire at h
  split at h
  · cases h
  · cases h
    simp

/-- The one waiter gets what it asked for and leaves. -/
theorem complete_one {k : ℕ} (hw : s.waiters.map Waiter.need = [k]) (h : s.complete () = some (n, c)) :
    n = k ∧ c.waiters = [] := by
  obtain ⟨w, hs, hk⟩ : ∃ w, s.waiters = [w] ∧ w.need = k := by
    match hm : s.waiters, hw with
    | [w], hw => exact ⟨w, rfl, by simpa using hw⟩
  unfold Semaphore.complete Semaphore.waiter? at h
  rw [hs] at h
  simp only [List.find?_singleton, decide_true, if_true] at h
  split at h
  · cases h
    exact ⟨hk, by simp [Semaphore.remove, hs]⟩
  · cases h

theorem cancel_empty {k : List ℕ} (hk : k.length ≤ 1) (hw : s.waiters.map Waiter.need = k) :
    (s.cancel ()).waiters = [] := by
  match hm : s.waiters, hw with
  | [], _ => simp [Semaphore.cancel, Semaphore.waiter?, hm]
  | [w], _ => simp [Semaphore.cancel, Semaphore.waiter?, Semaphore.remove, Semaphore.addPermits,
      Semaphore.grant, hm]
  | w :: w' :: ws, hw =>
    rw [← hw] at hk
    simp at hk

end Credit

namespace Task
variable {t : Task} {m : PumpMove} {orphan : Bool}

@[simp] theorem ended_finish (t : Task) : t.finish.ended = true := rfl

theorem moves_phase (h : t.Moves orphan m) : m.task.phase ≠ .joined := by
  have ha := moves_running h
  intro hj
  cases h <;> simp_all [stop, goto, finish, ended]

theorem counted_new (id : UInt32) (credited session : Bool) (phase : Phase) :
    (Task.new id credited session phase).Counted := by
  refine ⟨fun _ _ => rfl, Nat.zero_le _, fun _ => ?_, rfl⟩
  simp only [Task.new, Semaphore.new]
  split
  · exact Nat.le_refl _
  · exact Nat.zero_le _

theorem asks_length (u : Up) : u.asks.length ≤ 1 := by
  cases u <;> simp [Up.asks]

theorem counted_finish (h : t.pending ≤ fcWindow) (hw : t.credit.waiters.map Waiter.need = t.up.asks) :
    t.finish.Counted := by
  refine ⟨fun _ he => ?_, h, fun he => ?_, ?_⟩
  · rw [ended_finish] at he
    cases he
  · rw [ended_finish] at he
    cases he
  · simp only [finish, Credit.cancel_empty (asks_length t.up) hw]
    rfl

theorem acquire_free_le {n : ℕ} {ready : Bool} {c s : Semaphore Unit}
    (h : s.acquire () n = (ready, c)) : c.free ≤ s.free := by
  unfold Semaphore.acquire at h
  split at h
  · cases h
    exact Nat.sub_le _ _
  · cases h
    exact Nat.zero_le _

theorem complete_free {n : ℕ} {c s : Semaphore Unit} (h : s.complete () = some (n, c)) :
    c.free = s.free := by
  unfold Semaphore.complete at h
  split at h
  · split at h
    · cases h
      rfl
    · cases h
  · cases h

theorem asks_paid (t : Task) (chunk : Bytes) : (t.paid chunk).asks = [] := by
  unfold paid
  split <;> rfl

theorem counted_moves (h : t.Counted) (hm : t.Moves orphan m) : m.task.Counted := by
  have ha := moves_running hm
  have hf := h.free_le ha
  have hw := h.waiting
  have hnone : t.up.asks = [] → t.credit.waiters = [] := by
    intro hu
    rw [hu] at hw
    simpa using hw
  -- a step that leaves the credit alone and asks it for nothing, before or behind it
  have hkeep : ∀ u : Up, t.up.asks = [] → u.asks = [] → t.credit.waiters.map Waiter.need = u.asks := by
    intro u h1 h2
    rw [h2, hnone h1]
    rfl
  cases hm with
  | stop frames => exact counted_finish h.pending_le hw
  | refused chunk => exact counted_finish h.pending_le hw
  | wroteStop payload rest => exact counted_finish h.pending_le hw
  | offered chunk hp hu =>
    exact ⟨fun hc _ => h.pending_eq hc ha, h.pending_le, fun _ => hf,
      hkeep _ (by rw [hu]; rfl) (asks_paid t chunk)⟩
  | bought chunk c hp hu h1 h2 hc hq =>
    refine ⟨fun hc _ => h.pending_eq hc ha, h.pending_le, fun _ => (acquire_free_le hq).trans hf, ?_⟩
    simp only [goto, asks_paid, Credit.acquire_ready hq, hnone (by rw [hu]; rfl), List.map_nil]
  | asked chunk c hp hu h1 h2 hc hq =>
    refine ⟨fun hc _ => h.pending_eq hc ha, h.pending_le, fun _ => (acquire_free_le hq).trans hf, ?_⟩
    simp only [goto, Credit.acquire_wait hq, hnone (by rw [hu]; rfl), List.map_nil, Up.asks, List.nil_append]
  | granted chunk n c hp hu hq =>
    refine ⟨fun hc _ => h.pending_eq hc ha, h.pending_le, fun _ => (complete_free hq).trans_le hf, ?_⟩
    rw [hu] at hw
    simp only [goto, asks_paid, (Credit.complete_one hw hq).2, List.map_nil]
  | took chunk use hp hu =>
    exact ⟨fun hc _ => h.pending_eq hc ha, h.pending_le, fun _ => hf, hkeep _ (by rw [hu]; rfl) rfl⟩
  | queued chunk hp hu =>
    exact ⟨fun hc _ => h.pending_eq hc ha, h.pending_le, fun _ => hf, hkeep _ (by rw [hu]; rfl) rfl⟩
  | closed hp hu =>
    refine ⟨fun hc _ => h.pending_eq hc ha, h.pending_le, fun _ => hf, hkeep _ ?_ rfl⟩
    rcases hu with hu | hu <;> rw [hu] <;> rfl
  | closing u hp hu hc =>
    refine ⟨fun hc _ => h.pending_eq hc ha, h.pending_le, fun _ => hf, hkeep _ (by rw [hu]; rfl) ?_⟩
    rcases hc with rfl | rfl <;> rfl
  | recvData payload inbound hp hd hi =>
    have hle := h.pending_le
    refine ⟨fun hc _ => ?_, ?_, fun _ => hf, hw⟩
    · -- the count falls by what leaves the queue
      have hc' : t.credited = true := hc
      have he := h.pending_eq hc' ha
      rw [hi, List.map_cons, List.sum_cons] at he
      simp only [goto, hc', if_true, StreamIn.len] at he ⊢
      omega
    · simp only [goto]
      split <;> omega
  | recvClosed inbound hp hd hi =>
    refine ⟨fun hc _ => ?_, h.pending_le, fun _ => hf, hw⟩
    have he := h.pending_eq hc ha
    rw [hi, List.map_cons, List.sum_cons] at he
    simpa [goto, StreamIn.len] using he
  | _ => exact ⟨fun hc _ => h.pending_eq hc ha, h.pending_le, fun _ => hf, hw⟩

end Task

namespace Engine

/-- `entries` is part of `running`, `running` numbers exactly the tasks that were not joined, and
every bound of the engine is kept. -/
structure Tables (cfg : EngineConfig) (s : Engine) : Prop where
  entry_runs : ∀ id tid, s.entries.lookup id = some tid → s.running.lookup id = some tid
  runs : ∀ id tid, s.running.lookup id = some tid →
    ∃ t, s.tasks[tid]? = some t ∧ t.id = id ∧ t.phase ≠ .joined
  task_runs : ∀ (tid : ℕ) (t : Task), s.tasks[tid]? = some t → t.phase ≠ .joined →
    s.running.lookup t.id = some tid
  limit : s.running.keys.length ≤ cfg.maxStreams
  no_control : controlId ∉ s.running
  pending_fc : s.pendingFc.card ≤ maxPendingFc
  next_id : s.nextId ≠ controlId
  counted : ∀ (tid : ℕ) (t : Task), s.tasks[tid]? = some t → t.Counted
  blocked_free : ∀ b, s.blocked = some b → ∀ t, s.tasks[b.1]? = some t → t.credited = false
  opening_free : ∀ id, s.opening = some id → (id ∉ s.running ∧ id ≠ controlId) ∧
    s.running.keys.length < cfg.maxStreams ∧ s.accepting = true ∧ s.peerSpeaksFc = true
  plain : cfg.fcEnabled = false →
    s.peerSpeaksFc = false ∧ s.pendingFc = ∅ ∧ ∀ (tid : ℕ) (t : Task), s.tasks[tid]? = some t →
      t.credited = false

variable {cfg : EngineConfig} {s s' : Engine} {t : Task} {id : UInt32} {tid : ℕ}

theorem getElem?_modifyTask (s : Engine) (tid k : ℕ) (f : Task → Task) :
    (s.modifyTask tid f).tasks[k]? = (s.tasks[k]?).map (fun t => if tid = k then f t else t) := by
  simp only [modifyTask, List.getElem?_modify]
  rfl

/-- What every task shows is kept by a change that keeps it. -/
theorem map_modifyTask {α : Type*} {g : Task → α} {f : Task → Task} (hf : ∀ t, g (f t) = g t) (tid : ℕ)
    (s : Engine) : (s.modifyTask tid f).tasks.map g = s.tasks.map g := by
  apply List.ext_getElem?
  intro k
  rw [List.getElem?_map, List.getElem?_map, getElem?_modifyTask, Option.map_map]
  congr 1
  funext u
  simp only [Function.comp_apply]
  split
  · exact hf u
  · rfl

theorem tables_init (cfg : EngineConfig) : (init cfg).Tables cfg where
  entry_runs id tid h := by simp [init] at h
  runs id tid h := by simp [init] at h
  task_runs tid t h := by simp [init] at h
  limit := by simp [init]
  no_control := by simp [init]
  pending_fc := by simp [init]
  next_id := by
    change (1 : UInt32) ≠ 0
    decide
  counted tid t h := by simp [init] at h
  blocked_free b h := by simp [init] at h
  opening_free id h := by cases h
  plain _ := ⟨rfl, rfl, fun tid t h => by simp [init] at h⟩

/-- A change of one task that leaves its id and its place in `running` alone. -/
theorem Tables.modifyTask (h : s.Tables cfg) (tid : ℕ) (f : Task → Task)
    (hf : ∀ t, s.tasks[tid]? = some t →
      (f t).id = t.id ∧ (f t).credited = t.credited ∧
        ((f t).phase = .joined ↔ t.phase = .joined) ∧ (f t).Counted) :
    (s.modifyTask tid f).Tables cfg where
  entry_runs := h.entry_runs
  runs id k hr := by
    obtain ⟨t, ht, hid, hp⟩ := h.runs id k hr
    rw [getElem?_modifyTask, ht, Option.map_some]
    refine ⟨_, rfl, ?_⟩
    split
    · rename_i hk
      obtain ⟨h1, -, h2, -⟩ := hf t (hk ▸ ht)
      exact ⟨h1.trans hid, mt h2.mp hp⟩
    · exact ⟨hid, hp⟩
  task_runs k t' ht' hp' := by
    rw [getElem?_modifyTask, Option.map_eq_some_iff] at ht'
    obtain ⟨t, ht, rfl⟩ := ht'
    split at hp'
    · rename_i hk
      obtain ⟨h1, -, h2, -⟩ := hf t (hk ▸ ht)
      rw [if_pos hk, h1]
      exact h.task_runs k t ht (mt h2.mpr hp')
    · rename_i hk
      rw [if_neg hk]
      exact h.task_runs k t ht hp'
  limit := h.limit
  no_control := h.no_control
  pending_fc := h.pending_fc
  next_id := h.next_id
  counted k t' ht' := by
    rw [getElem?_modifyTask, Option.map_eq_some_iff] at ht'
    obtain ⟨t, ht, rfl⟩ := ht'
    split
    · rename_i hk
      exact (hf t (hk ▸ ht)).2.2.2
    · exact h.counted k t ht
  blocked_free b hb t' ht' := by
    rw [getElem?_modifyTask, Option.map_eq_some_iff] at ht'
    obtain ⟨t, ht, rfl⟩ := ht'
    have hc := h.blocked_free b hb t ht
    split
    · rename_i hk
      rw [(hf t (hk ▸ ht)).2.1]
      exact hc
    · exact hc
  opening_free := h.opening_free
  plain hfc := by
    obtain ⟨h1, h2, h3⟩ := h.plain hfc
    refine ⟨h1, h2, fun k t' ht' => ?_⟩
    rw [getElem?_modifyTask, Option.map_eq_some_iff] at ht'
    obtain ⟨t, ht, rfl⟩ := ht'
    split
    · rename_i hk
      rw [(hf t (hk ▸ ht)).2.1]
      exact h3 k t ht
    · exact h3 k t ht

theorem Tables.ctrlSend (h : s.Tables cfg) (f : Frame) : (s.ctrlSend f).Tables cfg := by
  unfold Engine.ctrlSend
  split
  · exact h
  · split
    · exact { h with }
    · exact { h with }

theorem modifyTask_modifyTask (s : Engine) (tid : ℕ) (f g : Task → Task) :
    (s.modifyTask tid f).modifyTask tid g = s.modifyTask tid (g ∘ f) := by
  simp only [modifyTask, List.modify_modify_eq]

@[simp] theorem pushIn_id (msg : StreamIn) (t : Task) : (pushIn msg t).id = t.id := by
  unfold pushIn
  split <;> rfl

@[simp] theorem pushIn_phase (msg : StreamIn) (t : Task) : (pushIn msg t).phase = t.phase := by
  unfold pushIn
  split <;> rfl

@[simp] theorem pushIn_credited (msg : StreamIn) (t : Task) : (pushIn msg t).credited = t.credited := by
  unfold pushIn
  split <;> rfl

@[simp] theorem countPending_credited (payload : Bytes) (t : Task) :
    (countPending payload t).credited = t.credited := by
  unfold countPending
  split <;> rfl

@[simp] theorem countPending_id (payload : Bytes) (t : Task) : (countPending payload t).id = t.id := by
  unfold countPending
  split <;> rfl

@[simp] theorem countPending_phase (payload : Bytes) (t : Task) :
    (countPending payload t).phase = t.phase := by
  unfold countPending
  split <;> rfl

/-- A message without bytes leaves the count right. -/
theorem counted_pushIn {msg : StreamIn} (h : t.Counted) (hl : t.credited = true → msg.len = 0) :
    (pushIn msg t).Counted := by
  unfold pushIn
  split
  · exact h
  · rename_i he
    have he' : t.ended = false := by simpa using he
    refine ⟨fun hc _ => ?_, h.pending_le, fun _ => h.free_le he', h.waiting⟩
    rw [List.map_append, List.sum_append, ← h.pending_eq hc he']
    simp [hl hc]

theorem counted_deliver {payload : Bytes} (h : t.Counted) (he : exceedsCredit payload t = false) :
    (pushIn (.data payload) (countPending payload t)).Counted := by
  unfold countPending
  split
  · rename_i hc
    have hle : t.pending + payload.length ≤ fcWindow := by simpa [exceedsCredit, hc] using he
    unfold pushIn
    split
    · rename_i hend
      have hne : t.ended ≠ false := by
        rw [show t.ended = true from hend]
        simp
      exact ⟨fun _ ha => absurd ha hne, hle, fun ha => absurd ha hne, h.waiting⟩
    · rename_i hend
      have hend' : t.ended = false := Bool.eq_false_iff.mpr hend
      refine ⟨fun _ _ => ?_, hle, fun _ => h.free_le hend', h.waiting⟩
      simp [h.pending_eq hc hend', StreamIn.len]
  · rename_i hc
    exact counted_pushIn h fun hc' => absurd hc' hc

theorem Tables.notify (h : s.Tables cfg) (tid : ℕ) {msg : StreamIn}
    (hl : ∀ t, s.tasks[tid]? = some t → t.credited = true → msg.len = 0) :
    (s.notify tid msg).Tables cfg := by
  unfold Engine.notify
  split
  · refine h.modifyTask tid _ fun t ht => ⟨pushIn_id msg t, pushIn_credited msg t, by rw [pushIn_phase], ?_⟩
    exact counted_pushIn (h.counted tid t ht) (hl t ht)
  · rename_i hr
    refine { h with blocked_free := fun b hb t ht => ?_ }
    cases hb
    have hr' : hasRoom t ≠ true := by simpa [show s.tasks[tid]? = some t from ht] using hr
    cases hc : t.credited with
    | false => rfl
    | true => simp [hasRoom, hc] at hr'

theorem deliver_eq_notify {payload : Bytes} (ht : s.tasks[tid]? = some t) (hc : t.credited = false) :
    (s.modifyTask tid (countPending payload)).notify tid (.data payload) =
      s.notify tid (.data payload) := by
  have hm : s.modifyTask tid (countPending payload) = s := by
    have hl : s.tasks.modify tid (countPending payload) = s.tasks := by
      apply List.ext_getElem?
      intro k
      rw [List.getElem?_modify]
      by_cases hk : tid = k
      · subst hk
        simp [ht, countPending, hc]
      · simp [hk]
    simp only [modifyTask, hl]
  rw [hm]

theorem Tables.deliver (h : s.Tables cfg) (tid : ℕ) (payload : Bytes) :
    (s.deliver tid payload).2.Tables cfg := by
  unfold Engine.deliver
  split
  · exact h
  · rename_i he
    cases ht : s.tasks[tid]? with
    | none =>
      refine Tables.notify ?_ tid fun t ht' => ?_
      · refine h.modifyTask tid _ fun t ht' => ?_
        rw [ht] at ht'
        cases ht'
      · rw [getElem?_modifyTask, ht] at ht'
        cases ht'
    | some t =>
      rw [ht, Option.any_some, Bool.not_eq_true] at he
      cases hc : t.credited with
      | false =>
        rw [deliver_eq_notify ht hc]
        refine h.notify tid fun t' ht' hc' => ?_
        rw [ht, Option.some.injEq] at ht'
        rw [← ht', hc] at hc'
        cases hc'
      | true =>
        -- a credited queue never waits, so the count and the message change in one step
        have hroom : ((s.modifyTask tid (countPending payload)).tasks[tid]?).all hasRoom = true := by
          simp [getElem?_modifyTask, ht, hasRoom, countPending, hc]
        rw [Engine.notify, if_pos hroom, modifyTask_modifyTask]
        refine h.modifyTask tid _ fun t' ht' => ?_
        rw [ht, Option.some.injEq] at ht'
        subst ht'
        refine ⟨?_, ?_, ?_, counted_deliver (h.counted tid t ht) he⟩
        · rw [Function.comp_apply, pushIn_id, countPending_id]
        · rw [Function.comp_apply, pushIn_credited, countPending_credited]
        · rw [Function.comp_apply, pushIn_phase, countPending_phase]

theorem Tables.removeEntry (h : s.Tables cfg) (id : UInt32) (tid : ℕ) :
    (s.removeEntry id tid).Tables cfg := by
  unfold Engine.removeEntry
  refine Tables.modifyTask ?_ tid _ fun t ht => ⟨rfl, rfl, Iff.rfl, ?_⟩
  · refine { h with entry_runs := fun i k hk => ?_ }
    by_cases hi : i = id
    · subst hi
      simp at hk
    · rw [AList.lookup_erase_ne hi] at hk
      exact h.entry_runs i k hk
  · exact { h.counted tid t ht with }

theorem Tables.abortEntry (h : s.Tables cfg) (id : UInt32) : (s.abortEntry id).Tables cfg := by
  unfold Engine.abortEntry
  split
  · exact (h.removeEntry _ _).notify _ fun _ _ _ => rfl
  · exact h

theorem Tables.reset (h : s.Tables cfg) (id : UInt32) (why : ResetReason) :
    (s.reset id why).Tables cfg := by
  have hs : Tables cfg { s with resets := s.resets ++ [(id, why)] } := { h with }
  exact (hs.abortEntry id).ctrlSend _

theorem Tables.sendAck (h : s.Tables cfg) (ack : Option Frame × SessionRecv) :
    (s.sendAck ack).Tables cfg := by
  have hs : Tables cfg { s with recv := ack.2 } := { h with }
  unfold Engine.sendAck
  split
  · exact hs.ctrlSend _
  · exact hs

theorem Tables.onData (h : s.Tables cfg) (id : UInt32) (payload : Bytes) :
    (s.onData id payload).Tables cfg := by
  have hs := h.sendAck (s.recv.received payload.length)
  unfold Engine.onData
  dsimp only
  split
  · exact hs
  · split
    · exact hs
    · rename_i tid _
      have hd := hs.deliver tid payload
      split
      · rename_i hq
        rw [hq] at hd
        exact hd
      · rename_i hq
        rw [hq] at hd
        exact hd.reset _ _

theorem streamInForClose_len (reason : Option String) : (streamInForClose reason).len = 0 := by
  unfold streamInForClose
  split <;> rfl

theorem Tables.onClose (h : s.Tables cfg) (id : UInt32) (reason : Option String) :
    (s.onClose id reason).Tables cfg := by
  have hs : Tables cfg { s with pendingFc := s.pendingFc.erase id } :=
    { h with
      pending_fc := (Finset.card_erase_le).trans h.pending_fc
      plain := fun hp => ⟨(h.plain hp).1, by simp [(h.plain hp).2.1], (h.plain hp).2.2⟩ }
  unfold Engine.onClose
  dsimp only
  split
  · exact hs.abortEntry id
  · split
    · exact hs.notify _ fun _ _ _ => streamInForClose_len reason
    · exact hs

theorem grant_fst_le (n : ℕ) (ws : List (Waiter Unit)) : (Semaphore.grant n ws).1 ≤ n := by
  have h := Semaphore.grant_sum n ws
  induction ws generalizing n with
  | nil => exact Nat.le_refl n
  | cons w ws ih =>
    refine (ih _ (Semaphore.grant_sum _ ws)).trans ?_
    exact Nat.sub_le _ _

theorem Tables.applyControl (h : s.Tables cfg) (hfc : cfg.fcEnabled = true) (payload : Bytes) :
    (s.applyControl payload).2.Tables cfg := by
  unfold Engine.applyControl
  split
  · exact h
  · exact h
  · rename_i id bytes _
    split
    · exact h
    · split
      · exact h
      · rename_i t ht
        split
        · split
          · exact h
          · rename_i hb
            refine h.modifyTask _ _ fun t' ht' => ⟨rfl, rfl, Iff.rfl, ?_⟩
            rw [ht, Option.some.injEq] at ht'
            subst ht'
            have hc := h.counted _ t ht
            refine ⟨hc.pending_eq, hc.pending_le, fun ha => ?_,
              (Credit.grant_need _ _).trans hc.waiting⟩
            -- the room below the window bounds what may be added
            have hf := hc.free_le ha
            have hg := grant_fst_le bytes.toNat t.credit.waiters
            simp only [addCredit, Semaphore.addPermits]
            omega
        · exact h
  · rename_i id _
    split
    · exact h
    · rename_i hb
      refine { h with pending_fc := ?_, plain := fun hp => ?_ }
      · have hi := Finset.card_insert_le id s.pendingFc
        simp only
        omega
      · rw [hfc] at hp
        cases hp
  · exact h

theorem Tables.grantWindow (h : s.Tables cfg) (window : Option UInt32) :
    (s.grantWindow window).Tables cfg := by
  unfold Engine.grantWindow
  split <;> exact { h with }

theorem Tables.onControl (h : s.Tables cfg) (payload : Bytes) : (s.onControl cfg payload).Tables cfg := by
  unfold Engine.onControl
  split
  · rename_i hfc
    have hs := h.applyControl hfc payload
    split
    · rename_i hq
      rw [hq] at hs
      exact hs
    · rename_i window s' hq
      rw [hq] at hs
      split
      · unfold initiateHello
        have hg : Tables cfg (if s'.accepting then s' else s'.grantWindow window) := by
          split
          · exact hs
          · exact hs.grantWindow window
        dsimp only
        generalize (if s'.accepting then s' else s'.grantWindow window) = s'' at hg ⊢
        split
        · exact hg
        · refine { hg with opening_free := fun id ho => ?opening, plain := fun hp => ?plain }
          case opening =>
            obtain ⟨hfree, hroom, -⟩ := hg.opening_free id ho
            exact ⟨hfree, hroom, rfl, rfl⟩
          case plain =>
            rw [hfc] at hp
            cases hp
      · have hs' : Tables cfg { s' with recv := { s'.recv with on := window.isSome } } := { hs with }
        unfold acceptHello
        dsimp only
        split
        · exact hs'
        · exact hs'.grantWindow window
    · rename_i s' hq
      rw [hq] at hs
      unfold onSWindow
      split
      · exact hs
      · split <;> exact { hs with }
    · rename_i hq
      rw [hq] at hs
      exact hs.reset _ _
    · rename_i hq
      rw [hq] at hs
      exact { hs with }
  · exact h

/-- A new task under an id that is not in use. -/
theorem Tables.spawn (h : s.Tables cfg) (ht : t.Counted) (hid : t.id ≠ controlId)
    (hfree : t.id ∉ s.running) (hroom : s.running.keys.length < cfg.maxStreams)
    (hp : t.phase ≠ .joined) (hb : s.blocked = none) (ho : s.opening = none)
    (hfc : cfg.fcEnabled = false → t.credited = false) : (s.spawn t).Tables cfg where
  entry_runs id tid he := by
    simp only [Engine.spawn] at he ⊢
    by_cases hi : id = t.id
    · subst hi
      rw [AList.lookup_insert] at he ⊢
      exact he
    · rw [AList.lookup_insert_ne hi] at he ⊢
      exact h.entry_runs id tid he
  runs id tid hr := by
    simp only [Engine.spawn] at hr ⊢
    by_cases hi : id = t.id
    · subst hi
      rw [AList.lookup_insert, Option.some.injEq] at hr
      exact ⟨t, by rw [← hr, List.getElem?_concat_length], rfl, hp⟩
    · rw [AList.lookup_insert_ne hi] at hr
      obtain ⟨t', ht', h1, h2⟩ := h.runs id tid hr
      have hlt := (List.getElem?_eq_some_iff.mp ht').1
      exact ⟨t', by rw [List.getElem?_append_left hlt, ht'], h1, h2⟩
  task_runs tid t' ht' hp' := by
    simp only [Engine.spawn] at ht' ⊢
    rcases Nat.lt_trichotomy tid s.tasks.length with hlt | rfl | hgt
    · rw [List.getElem?_append_left hlt] at ht'
      have hr := h.task_runs tid t' ht' hp'
      have hne : t'.id ≠ t.id := by
        intro he
        rw [he] at hr
        exact hfree (AList.lookup_isSome.mp (by rw [hr]; rfl))
      rw [AList.lookup_insert_ne hne]
      exact hr
    · rw [List.getElem?_concat_length, Option.some.injEq] at ht'
      rw [← ht', AList.lookup_insert]
    · rw [List.getElem?_eq_none (by simp; omega)] at ht'
      cases ht'
  limit := by
    simp only [Engine.spawn, AList.keys_insert, List.length_cons]
    rw [List.erase_of_not_mem (mt AList.mem_keys.mpr hfree)]
    omega
  no_control := by
    simp only [Engine.spawn, AList.mem_insert, not_or]
    exact ⟨Ne.symm hid, h.no_control⟩
  pending_fc := h.pending_fc
  next_id := h.next_id
  counted tid t' ht' := by
    simp only [Engine.spawn] at ht'
    rcases Nat.lt_trichotomy tid s.tasks.length with hlt | rfl | hgt
    · rw [List.getElem?_append_left hlt] at ht'
      exact h.counted tid t' ht'
    · rw [List.getElem?_concat_length, Option.some.injEq] at ht'
      exact ht' ▸ ht
    · rw [List.getElem?_eq_none (by simp; omega)] at ht'
      cases ht'
  blocked_free b hb' := by
    simp [Engine.spawn, hb] at hb'
  opening_free id ho' := by
    simp [Engine.spawn, ho] at ho'
  plain hf := by
    obtain ⟨h1, h2, h3⟩ := h.plain hf
    refine ⟨h1, h2, fun tid t' ht' => ?_⟩
    simp only [Engine.spawn] at ht'
    rcases Nat.lt_trichotomy tid s.tasks.length with hlt | rfl | hgt
    · rw [List.getElem?_append_left hlt] at ht'
      exact h3 tid t' ht'
    · rw [List.getElem?_concat_length, Option.some.injEq] at ht'
      exact ht' ▸ hfc hf
    · rw [List.getElem?_eq_none (by simp; omega)] at ht'
      cases ht'

/-- The engine behind an Open it takes up: the FC_ON in front of it is used. -/
def taken (id : UInt32) (s : Engine) : Engine :=
  { s with pendingFc := s.pendingFc.erase id, opened := true }

/-- What an Open at the accept engine comes to. -/
inductive Opening (cfg : EngineConfig) (s : Engine) (id : UInt32) : Engine → Prop
  | inUse (h : id = controlId ∨ id ∈ s.entries ∨ id ∈ s.running) :
      Opening cfg s id (s.endWith (.openInUse id))
  | refused (reason : String) : Opening cfg s id ((s.taken id).ctrlSend (.close id (some reason)))
  | accepted (h : ¬(id = controlId ∨ id ∈ s.entries ∨ id ∈ s.running))
      (hroom : s.running.keys.length < cfg.maxStreams) :
      Opening cfg s id ((s.taken id).spawn (.new id (decide (id ∈ s.pendingFc)) s.session.isSome .dialing))

theorem opening_onOpen (gate : String → Except String Unit) (id : UInt32) (target : String) :
    Opening cfg s id (s.onOpen cfg gate id target) := by
  unfold onOpen
  split
  · rename_i h
    exact .inUse h
  · rename_i h
    dsimp only
    split
    · exact .refused _
    · rename_i hroom
      split
      · exact .refused _
      · exact .accepted h (Nat.lt_of_not_le hroom)

theorem Tables.taken (h : s.Tables cfg) (id : UInt32) : (s.taken id).Tables cfg :=
  { h with
    pending_fc := (Finset.card_erase_le).trans h.pending_fc
    plain := fun hp => ⟨(h.plain hp).1, by simp [Engine.taken, (h.plain hp).2.1], (h.plain hp).2.2⟩ }

theorem Tables.onOpen (h : s.Tables cfg) (hb : s.blocked = none) (hopen : s.opening = none)
    (gate : String → Except String Unit) (id : UInt32) (target : String) :
    (s.onOpen cfg gate id target).Tables cfg := by
  have ho : Opening cfg s id _ := opening_onOpen gate id target
  generalize s.onOpen cfg gate id target = s' at ho ⊢
  cases ho with
  | inUse => exact { h with }
  | refused reason => exact (h.taken id).ctrlSend _
  | accepted hid hroom =>
    simp only [not_or] at hid
    refine (h.taken id).spawn (Task.counted_new _ _ _ _) hid.1 hid.2.2 hroom (by simp [Task.new]) hb hopen
      fun hf => ?_
    simp [Task.new, (h.plain hf).2.1]

theorem bump_ne (id : UInt32) : bump id ≠ controlId := by
  unfold bump controlId
  intro h
  have h1 : (1 : UInt32) ≤ max (id + 1) 1 := by
    rw [UInt32.le_iff_toNat_le]
    simp only [max]
    split
    · simp
    · rename_i hlt
      rw [UInt32.le_iff_toNat_le] at hlt
      simp at hlt ⊢
      omega
  rw [h] at h1
  revert h1
  decide

theorem freeId_some {running : AList (fun _ : UInt32 => ℕ)} {fuel : ℕ} {start id : UInt32}
    (hs : start ≠ controlId) (h : freeId running fuel start = some id) :
    id ∉ running ∧ id ≠ controlId := by
  induction fuel generalizing start with
  | zero => cases h
  | succ n ih =>
    simp only [freeId] at h
    split at h
    · exact ih (bump_ne start) h
    · rename_i hn
      cases h
      exact ⟨hn, hs⟩

/-- What a local connection at the initiate engine comes to. With a peer that speaks flow control the
stream is announced, unless the backlog has no room for that. -/
inductive Connecting (cfg : EngineConfig) (s : Engine) (target : String) : Engine → Prop
  | refused : Connecting cfg s target s
  | backlog (id : UInt32) : Connecting cfg s target { s with nextId := bump id, ended := some .backlog }
  | announced (id : UInt32) (ha : s.accepting = true) (hp : s.peerSpeaksFc = true)
      (hid : freeId s.running (s.running.keys.length + 1) s.nextId = some id)
      (hroom : s.running.keys.length < cfg.maxStreams) :
      Connecting cfg s target
        { s with nextId := bump id, ctrl := s.ctrl ++ [fcOnFrame id], opening := some id }
  | plain (id : UInt32) (ha : s.accepting = true) (hp : s.peerSpeaksFc = false)
      (hid : freeId s.running (s.running.keys.length + 1) s.nextId = some id)
      (hroom : s.running.keys.length < cfg.maxStreams) :
      Connecting cfg s target
        (({ s with nextId := bump id } : Engine).spawn (.new id false false (.spawned target)))

/-- What the Open of an announced stream comes to. -/
inductive SendingOpen (s : Engine) (target : String) : Engine → Prop
  | backlog : SendingOpen s target (s.endWith .backlog)
  | sent (id : UInt32) (ho : s.opening = some id) :
      SendingOpen s target
        (({ s with opening := none, ctrl := s.ctrl ++ [.open id target] } : Engine).spawn
          (.new id true s.session.isSome .pumping))

theorem ctrlSend_cases (f : Frame) (hend : s.ended = none) :
    s.ctrlSend f = s.endWith .backlog ∨ s.ctrlSend f = { s with ctrl := s.ctrl ++ [f] } := by
  unfold ctrlSend
  rw [hend]
  simp only [Option.isSome_none, Bool.false_eq_true, if_false]
  split
  · exact .inl rfl
  · exact .inr rfl

theorem ctrlSend_ended (f : Frame) (h : s.ended.isSome = true) : s.ctrlSend f = s := if_pos h

theorem connecting_onConnection (hend : s.ended = none) {target : String}
    (hq : s.onConnection cfg target = some s') : Connecting cfg s target s' := by
  unfold onConnection at hq
  split at hq
  · cases hq
    exact .refused
  · split at hq
    · cases hq
    · rename_i hacc
      have ha : s.accepting = true := by simpa using hacc
      split at hq
      · cases hq
        exact .refused
      · rename_i hroom
        have hroom' := Nat.lt_of_not_le hroom
        split at hq
        · cases hq
        · rename_i id hid
          dsimp only at hq
          split at hq
          · rename_i hp
            have hend' : ({ s with nextId := bump id } : Engine).ended = none := hend
            rcases ctrlSend_cases (fcOnFrame id) hend' with hc | hc
            · -- the FC_ON found no room
              rw [hc, if_pos (by simp [endWith])] at hq
              cases hq
              exact .backlog id
            · rw [hc, if_neg (by simp [hend])] at hq
              cases hq
              exact .announced id ha hp hid hroom'
          · rename_i hp
            cases hq
            exact .plain id ha (by simpa using hp) hid hroom'

theorem sendingOpen_onSendOpen (hend : s.ended = none) {target : String}
    (hq : s.onSendOpen target = some s') : SendingOpen s target s' := by
  unfold onSendOpen at hq
  split at hq
  · cases hq
  · rename_i id ho
    dsimp only at hq
    rcases ctrlSend_cases (.open id target) hend with hc | hc
    · rw [hc, if_pos (by simp [endWith])] at hq
      cases hq
      exact .backlog
    · rw [hc, if_neg (by simp [hend])] at hq
      cases hq
      exact .sent id ho

theorem Tables.onConnection (h : s.Tables cfg) (hb : s.blocked = none) (ho : s.opening = none)
    (hend : s.ended = none) {target : String} (hq : s.onConnection cfg target = some s') :
    s'.Tables cfg := by
  cases connecting_onConnection hend hq with
  | refused => exact h
  | backlog id => exact { h with next_id := bump_ne id }
  | announced id ha hp hid hroom =>
    refine { h with next_id := bump_ne id, opening_free := fun k hk => ?_ }
    obtain rfl : id = k := by simpa using hk
    exact ⟨freeId_some h.next_id hid, hroom, ha, hp⟩
  | plain id ha hp hid hroom =>
    obtain ⟨hfree, hne⟩ := freeId_some h.next_id hid
    have hs : Tables cfg { s with nextId := bump id } := { h with next_id := bump_ne id }
    exact hs.spawn (Task.counted_new _ _ _ _) hne hfree hroom (by simp [Task.new]) hb ho fun _ => rfl

theorem Tables.onSendOpen (h : s.Tables cfg) (hb : s.blocked = none) (hend : s.ended = none)
    {target : String} (hq : s.onSendOpen target = some s') : s'.Tables cfg := by
  cases sendingOpen_onSendOpen hend hq with
  | backlog => exact { h with }
  | sent id ho =>
    obtain ⟨⟨hfree, hne⟩, hroom, -, hp⟩ := h.opening_free id ho
    have hs : Tables cfg { s with opening := none, ctrl := s.ctrl ++ [.open id target] } :=
      { h with opening_free := fun k hk => by cases hk }
    refine hs.spawn (Task.counted_new _ _ _ _) hne hfree hroom (by simp [Task.new]) hb rfl fun hf => ?_
    rw [(h.plain hf).1] at hp
    cases hp

theorem erase_of_lookup_none {m : AList (fun _ : UInt32 => ℕ)} (h : m.lookup id = none) :
    m.erase id = m := by
  apply AList.ext
  exact List.kerase_of_notMem_keys (AList.lookup_eq_none.mp h)

/-- The task's number is found under its own id. -/
theorem Tables.find_running (h : s.Tables cfg) (ht : s.tasks[tid]? = some t) (hp : t.phase ≠ .joined) :
    s.running.entries.find? (fun e => e.2 = tid) = some ⟨t.id, tid⟩ := by
  have hr := h.task_runs tid t ht hp
  have hmem : (⟨t.id, tid⟩ : Sigma fun _ : UInt32 => ℕ) ∈ s.running.entries :=
    AList.mem_lookup_iff.mp hr
  cases hf : s.running.entries.find? (fun e => e.2 = tid) with
  | none =>
    have hn := List.find?_eq_none.mp hf _ hmem
    simp at hn
  | some e =>
    obtain ⟨id', k⟩ := e
    have hk : k = tid := by simpa using List.find?_some hf
    subst hk
    obtain ⟨t', ht', hid, -⟩ := h.runs id' k (AList.mem_lookup_iff.mpr (List.mem_of_find?_eq_some hf))
    rw [ht, Option.some.injEq] at ht'
    subst ht'
    rw [hid]

/-- What joining a task does: both tables lose its id. -/
theorem Tables.onJoin_eq (h : s.Tables cfg) (hq : s.onJoin tid = some s') :
    ∃ t f, s.tasks[tid]? = some t ∧ t.phase = .finished ∧ (f = markJoined ∨ f = closeCredit ∘ markJoined) ∧
      s' = { s with running := s.running.erase t.id, entries := s.entries.erase t.id,
                    tasks := s.tasks.modify tid f } := by
  unfold Engine.onJoin at hq
  split at hq
  · cases hq
  · rename_i t ht
    split at hq
    · rename_i hp
      have hp' : t.phase ≠ .joined := by
        rw [hp]
        simp
      have hfind := h.find_running ht hp'
      dsimp only [Engine.modifyTask] at hq
      rw [hfind] at hq
      dsimp only at hq
      split at hq
      · rename_i he
        cases hq
        refine ⟨t, markJoined, ht, hp, .inl rfl, ?_⟩
        rw [erase_of_lookup_none he]
      · rename_i tid' he
        cases hq
        -- the entry is this task's
        have hk := h.entry_runs _ _ he
        rw [h.task_runs tid t ht hp', Option.some.injEq] at hk
        refine ⟨t, closeCredit ∘ markJoined, ht, hp, .inr rfl, ?_⟩
        simp only [Engine.removeEntry, Engine.modifyTask, ← hk, List.modify_modify_eq]
    · cases hq

theorem Tables.onJoin (h : s.Tables cfg) (hq : s.onJoin tid = some s') : s'.Tables cfg := by
  obtain ⟨t, f, ht, hp, hf, rfl⟩ := h.onJoin_eq hq
  have hrun : s.running.lookup t.id = some tid := by
    apply h.task_runs tid t ht
    rw [hp]
    simp
  have hfield : ∀ t : Task, (f t).id = t.id ∧ (f t).credited = t.credited ∧ (f t).phase = .joined ∧
      (f t).pending = t.pending := by
    intro t
    rcases hf with rfl | rfl <;> exact ⟨rfl, rfl, rfl, rfl⟩
  have hget : ∀ k, (s.tasks.modify tid f)[k]? = (s.tasks[k]?).map (fun t => if tid = k then f t else t) :=
    fun k => getElem?_modifyTask s tid k f
  have hkeys : (s.running.erase t.id).keys.length ≤ s.running.keys.length := by
    rw [AList.keys_erase]
    exact List.length_erase_le
  refine ⟨fun id k hk => ?_, fun id k hk => ?_, fun k t' ht' hp' => ?_, ?_, ?_, h.pending_fc, h.next_id,
    fun k t' ht' => ?_, fun b hb t' ht' => ?_, fun id ho => ?_, fun hf => ?_⟩
  · by_cases hi : id = t.id
    · rw [hi, AList.lookup_erase] at hk
      cases hk
    · rw [AList.lookup_erase_ne hi] at hk ⊢
      exact h.entry_runs id k hk
  · by_cases hi : id = t.id
    · rw [hi, AList.lookup_erase] at hk
      cases hk
    · rw [AList.lookup_erase_ne hi] at hk
      obtain ⟨t', ht', hid, hj⟩ := h.runs id k hk
      have hne : tid ≠ k := by
        rintro rfl
        rw [ht, Option.some.injEq] at ht'
        exact hi (ht' ▸ hid.symm)
      refine ⟨t', ?_, hid, hj⟩
      rw [hget, ht', Option.map_some, if_neg hne]
  · rw [hget, Option.map_eq_some_iff] at ht'
    obtain ⟨t'', ht'', rfl⟩ := ht'
    by_cases hk : tid = k
    · rw [if_pos hk] at hp'
      exact absurd (hfield t'').2.2.1 hp'
    · rw [if_neg hk] at hp' ⊢
      have hr := h.task_runs k t'' ht'' hp'
      have hne : t''.id ≠ t.id := by
        intro he
        rw [he, hrun, Option.some.injEq] at hr
        exact hk hr
      rw [AList.lookup_erase_ne hne]
      exact hr
  · exact hkeys.trans h.limit
  · rw [AList.mem_erase]
    exact fun hm => h.no_control hm.2
  · rw [hget, Option.map_eq_some_iff] at ht'
    obtain ⟨t'', ht'', rfl⟩ := ht'
    have hc := h.counted k t'' ht''
    split
    · have hend : (f t'').ended = true := by
        rw [Task.ended, (hfield t'').2.2.1]
      refine ⟨fun _ ha => ?_, ?_, fun ha => ?_, ?_⟩
      · rw [hend] at ha
        cases ha
      · rw [(hfield t'').2.2.2]
        exact hc.pending_le
      · rw [hend] at ha
        cases ha
      · rcases hf with rfl | rfl <;> exact hc.waiting
    · exact hc
  · rw [hget, Option.map_eq_some_iff] at ht'
    obtain ⟨t'', ht'', rfl⟩ := ht'
    have hc := h.blocked_free b hb t'' ht''
    split
    · rw [(hfield t'').2.1]
      exact hc
    · exact hc
  · obtain ⟨⟨hfree, hne⟩, hroom, hon⟩ := h.opening_free id ho
    refine ⟨⟨?_, hne⟩, hkeys.trans_lt hroom, hon⟩
    rw [AList.mem_erase]
    exact fun hm => hfree hm.2
  · obtain ⟨h1, h2, h3⟩ := h.plain hf
    refine ⟨h1, h2, fun k t' ht' => ?_⟩
    rw [hget, Option.map_eq_some_iff] at ht'
    obtain ⟨t'', ht'', rfl⟩ := ht'
    split
    · rw [(hfield t'').2.1]
      exact h3 k t'' ht''
    · exact h3 k t'' ht''

theorem Tables.onUnblock (h : s.Tables cfg) (hq : s.onUnblock = some s') : s'.Tables cfg := by
  unfold Engine.onUnblock at hq
  split at hq
  · cases hq
  · rename_i tid msg hb
    split at hq
    · cases hq
      have hs : Tables cfg { s with blocked := none } := { h with blocked_free := by simp }
      refine hs.modifyTask tid _ fun t ht => ⟨pushIn_id msg t, pushIn_credited msg t, by rw [pushIn_phase], ?_⟩
      refine counted_pushIn (h.counted tid t ht) fun hc => ?_
      rw [h.blocked_free _ hb t ht] at hc
      cases hc
    · cases hq

/-- What a pump's step does to the engine. -/
theorem onPump_eq {e : PumpEvent} (hq : s.onPump tid e = some s') :
    ∃ t m session, s.tasks[tid]? = some t ∧ t.Moves (s.orphan tid) m ∧
      t.step s.outbound (s.orphan tid) e = some m ∧ useWindow tid m.window s.session = some session ∧
      s' = { s with tasks := s.tasks.set tid m.task, out := s.out ++ m.frames, session := session } := by
  unfold Engine.onPump at hq
  split at hq
  · cases hq
  · rename_i t ht
    split at hq
    · cases hq
    · rename_i m hm
      split at hq
      · cases hq
      · rename_i session hw
        cases hq
        exact ⟨t, m, session, ht, Task.step_moves hm, hm, hw, rfl⟩

theorem Tables.onPump {e : PumpEvent} (h : s.Tables cfg) (hq : s.onPump tid e = some s') :
    s'.Tables cfg := by
  obtain ⟨t, m, session, ht, hm, -, -, rfl⟩ := onPump_eq hq
  have hs : (s.modifyTask tid (fun _ => m.task)).Tables cfg := by
    refine h.modifyTask tid _ fun t' ht' => ?_
    rw [ht, Option.some.injEq] at ht'
    subst ht'
    refine ⟨Task.moves_id hm, Task.moves_credited hm, ?_, Task.counted_moves (h.counted tid t ht) hm⟩
    have ha := Task.moves_running hm
    refine ⟨fun hj => absurd hj (Task.moves_phase hm), fun hj => ?_⟩
    rw [Task.ended, hj] at ha
    cases ha
  rw [List.set_eq_modify]
  exact { hs with }

theorem Tables.onFrame (h : s.Tables cfg) (hb : s.blocked = none) (ho : s.opening = none) (f : Frame) :
    (s.onFrame cfg f).Tables cfg := by
  cases f with
  | data id payload =>
    simp only [Engine.onFrame]
    split
    · exact h.onControl payload
    · exact h.onData id payload
  | close id reason => exact h.onClose id reason
  | «open» id target =>
    simp only [Engine.onFrame]
    split
    · exact h
    · exact h.onOpen hb ho _ id target

/-- The turns of the loop, those that only set a flag or end the session in one case each. -/
inductive Turn (cfg : EngineConfig) (s : Engine) : EngineEvent → Engine → Prop
  | connection (target : String) (s' : Engine) (hs : cfg.side = .initiate target)
      (hq : s.onConnection cfg target = some s') : Turn cfg s .connection s'
  | sendOpen (target : String) (s' : Engine) (hs : cfg.side = .initiate target)
      (hq : s.onSendOpen target = some s') : Turn cfg s .sendOpen s'
  | frame (f : Frame) : Turn cfg s (.frame f) (s.onFrame cfg f)
  | join (tid : ℕ) (s' : Engine) (hq : s.onJoin tid = some s') : Turn cfg s (.join tid) s'
  | flush : Turn cfg s .flush s.onFlush
  | flags (e : EngineEvent) (accepting helloDeadline stopping : Bool) (he : ∀ f, e ≠ .frame f)
      (hne : e ≠ .sendOpen) (ha : accepting = s.accepting ∨ accepting = true) :
      Turn cfg s e { s with accepting := accepting, helloDeadline := helloDeadline, stopping := stopping }
  | gone (e : EngineEvent) (why : EndReason) (he : ∀ f, e ≠ .frame f) (hne : e ≠ .sendOpen)
      (hw : why = .readFailed ∨ why = .deadPeer ∨ why = .writeSideEnded) : Turn cfg s e (s.endWith why)

theorem turn_cases {e : EngineEvent} (hq : s.turn cfg e = some s') : Turn cfg s e s' := by
  cases e with
  | connection =>
    simp only [turn] at hq
    split at hq
    · rename_i target hs
      exact .connection target s' hs hq
    · cases hq
  | sendOpen =>
    simp only [turn] at hq
    split at hq
    · rename_i target hs
      exact .sendOpen target s' hs hq
    · cases hq
  | frame f =>
    cases hq
    exact .frame f
  | readError =>
    cases hq
    exact .gone _ _ (by simp) (by simp) (.inl rfl)
  | join tid => exact .join tid s' hq
  | flush =>
    simp only [turn] at hq
    split at hq
    · cases hq
      exact .flush
    · cases hq
  | dead =>
    simp only [turn] at hq
    split at hq
    · split at hq
      · cases hq
        exact .gone _ _ (by simp) (by simp) (.inr (.inl rfl))
      · cases hq
    · cases hq
  | sessionUp =>
    simp only [turn] at hq
    split at hq
    · cases hq
      exact .flags _ _ _ _ (by simp) (by simp) (.inl rfl)
    · cases hq
  | helloWait =>
    simp only [turn] at hq
    split at hq
    · cases hq
      exact .flags _ _ _ _ (by simp) (by simp) (.inr rfl)
    · cases hq
  | stop =>
    simp only [turn] at hq
    split at hq
    · cases hq
    · cases hq
      exact .flags _ _ _ _ (by simp) (by simp) (.inl rfl)
  | writerEnded =>
    simp only [turn] at hq
    split at hq
    · cases hq
      exact .gone _ _ (by simp) (by simp) (.inr (.inr rfl))
    · cases hq
  | _ => cases hq

theorem Tables.turn (h : s.Tables cfg) (hb : s.blocked = none) (hend : s.ended = none) {e : EngineEvent}
    (ho : s.opening = none ∨ e = .sendOpen) (hq : s.turn cfg e = some s') : s'.Tables cfg := by
  have hnone : e ≠ .sendOpen → s.opening = none := fun he => ho.resolve_right he
  cases turn_cases hq with
  | connection target s' hs hc => exact h.onConnection hb (hnone (by simp)) hend hc
  | sendOpen target s' hs hc => exact h.onSendOpen hb hend hc
  | frame f => exact h.onFrame hb (hnone (by simp)) f
  | join tid s' hj => exact h.onJoin hj
  | flush => exact h.sendAck _
  | flags e accepting helloDeadline stopping he hne =>
    refine { h with opening_free := fun id hid => ?_ }
    rw [hnone hne] at hid
    cases hid
  | gone => exact { h with }

/-- What a step is: a poll of the writer, its failure, a message that found room, a step of a pump,
or a turn of the loop. -/
theorem step_cases {e : EngineEvent} {w : List Frame} (hq : s.step cfg e = some (s', w)) :
    s.ended = none ∧
    ((e = .pollCtrl ∧ s.ctrl = [] ∧ s' = { s with ctrlEmpty := true } ∧ w = []) ∨
    (∃ f ctrl, e = .pollCtrl ∧ s.ctrl = f :: ctrl ∧ s' = { s with ctrl := ctrl, ctrlEmpty := false } ∧
      w = [f]) ∨
    (e = .pollOut ∧ s.out = [] ∧ s' = { s with ctrlEmpty := false } ∧ w = []) ∨
    (∃ f out, e = .pollOut ∧ s.ctrlEmpty = true ∧ s.out = f :: out ∧
      s' = { s with out := out, ctrlEmpty := false } ∧ w = [f]) ∨
    (e = .writeError ∧ s' = { s with writerGone := true } ∧ w = []) ∨
    (e = .unblock ∧ s.onUnblock = some s' ∧ w = []) ∨
    (∃ tid pe, e = .pump tid pe ∧ s.onPump tid pe = some s' ∧ w = []) ∨
    (s.blocked = none ∧ (s.opening = none ∨ e = .sendOpen) ∧ s.turn cfg e = some s' ∧ w = [])) := by
  unfold Engine.step at hq
  split at hq
  · cases hq
  · rename_i hended
    refine ⟨by simpa using hended, ?_⟩
    split at hq
    · split at hq
      · cases hq
      · split at hq
        · rename_i hc
          cases hq
          exact .inl ⟨rfl, hc, rfl, rfl⟩
        · rename_i f ctrl hc
          cases hq
          exact .inr (.inl ⟨f, ctrl, rfl, hc, rfl, rfl⟩)
    · split at hq
      · cases hq
      · rename_i hg
        split at hq
        · rename_i ho
          cases hq
          exact .inr (.inr (.inl ⟨rfl, ho, rfl, rfl⟩))
        · rename_i f out ho
          cases hq
          refine .inr (.inr (.inr (.inl ⟨f, out, rfl, ?_, ho, rfl, rfl⟩)))
          simpa using (not_or.mp hg).2
    · cases hq
      exact .inr (.inr (.inr (.inr (.inl ⟨rfl, rfl, rfl⟩))))
    · rw [Option.map_eq_some_iff] at hq
      obtain ⟨u, hu, he⟩ := hq
      cases he
      exact .inr (.inr (.inr (.inr (.inr (.inl ⟨rfl, hu, rfl⟩)))))
    · rename_i tid pe
      rw [Option.map_eq_some_iff] at hq
      obtain ⟨u, hu, he⟩ := hq
      cases he
      exact .inr (.inr (.inr (.inr (.inr (.inr (.inl ⟨tid, pe, rfl, hu, rfl⟩))))))
    · split at hq
      · cases hq
      · rename_i hb
        obtain ⟨hb, ho⟩ := not_or.mp hb
        rw [Option.map_eq_some_iff] at hq
        obtain ⟨u, hu, he⟩ := hq
        cases he
        have ho' : s.opening = none ∨ e = .sendOpen := by
          by_contra hn
          obtain ⟨h1, h2⟩ := not_or.mp hn
          exact ho ⟨Option.isSome_iff_ne_none.mpr h1, h2⟩
        exact .inr (.inr (.inr (.inr (.inr (.inr (.inr ⟨by simpa using hb, ho', hu, rfl⟩))))))

theorem Tables.step (h : s.Tables cfg) {e : EngineEvent} {w : List Frame}
    (hq : s.step cfg e = some (s', w)) : s'.Tables cfg := by
  obtain ⟨hend, hc⟩ := step_cases hq
  rcases hc with ⟨-, -, rfl, -⟩ | ⟨f, ctrl, -, -, rfl, -⟩ | ⟨-, -, rfl, -⟩ | ⟨f, out, -, -, -, rfl, -⟩ |
    ⟨-, rfl, -⟩ | ⟨-, hu, -⟩ | ⟨tid, pe, -, hp, -⟩ | ⟨hb, ho, ht, -⟩
  · exact { h with }
  · exact { h with }
  · exact { h with }
  · exact { h with }
  · exact { h with }
  · exact h.onUnblock hu
  · exact h.onPump hp
  · exact h.turn hb hend ho ht

theorem tables_next (s : Engine) (e : EngineEvent) (s' : Engine) (h : s.Tables cfg)
    (hq : s.next cfg e = some s') : s'.Tables cfg := by
  simp only [Engine.next, Option.map_eq_some_iff, Prod.exists] at hq
  obtain ⟨u, w, hu, rfl⟩ := hq
  exact h.step hu

/-- The tables of either engine, whatever its peer sends, whatever its tasks do and however they
end. -/
theorem engine_tables (hr : Reachable (next cfg) (init cfg) s) :
    (∀ id ∈ s.entries, id ∈ s.running) ∧
    s.running.keys.length ≤ cfg.maxStreams ∧
    (controlId ∉ s.entries ∧ controlId ∉ s.running) ∧
    (∀ (k l : ℕ) (t u : Task), s.tasks[k]? = some t → s.tasks[l]? = some u →
      t.ended = false → u.ended = false → t.id = u.id → k = l) ∧
    s.pendingFc.card ≤ maxPendingFc ∧
    (∀ t ∈ s.tasks, t.credited = true → t.pending ≤ fcWindow ∧
      (t.ended = false → t.pending = (t.inbound.map StreamIn.len).sum ∧ t.credit.free ≤ fcWindow)) := by
  have h : s.Tables cfg := reachable_invariant tables_next (tables_init cfg) hr
  have hsub : ∀ id ∈ s.entries, id ∈ s.running := by
    intro id hid
    obtain ⟨tid, he⟩ := Option.isSome_iff_exists.mp (AList.lookup_isSome.mpr hid)
    rw [← AList.lookup_isSome, h.entry_runs id tid he]
    rfl
  refine ⟨hsub, h.limit, ⟨mt (hsub controlId) h.no_control, h.no_control⟩, ?_, h.pending_fc, ?_⟩
  · intro k l t u ht hu hat hau hid
    have hjoined : ∀ v : Task, v.ended = false → v.phase ≠ .joined := by
      intro v hv hj
      rw [Task.ended, hj] at hv
      cases hv
    have h1 := h.task_runs k t ht (hjoined t hat)
    have h2 := h.task_runs l u hu (hjoined u hau)
    rw [hid, h2, Option.some.injEq] at h1
    exact h1.symm
  · intro t ht hc
    obtain ⟨k, hk⟩ := List.mem_iff_getElem?.mp ht
    have hcount := h.counted k t hk
    exact ⟨hcount.pending_le, fun ha => ⟨hcount.pending_eq hc ha, hcount.free_le ha⟩⟩

/-- An accept engine that lets one stream to any target through. -/
def sampleAccept : EngineConfig := ⟨.accept (fun _ => .ok ()), 1, true, 65536⟩

/-- A credited stream gets a byte, then its pump panics. -/
def sampleFlood : List EngineEvent :=
  [.frame (fcOnFrame 1), .frame (.open 1 "127.0.0.1:80"), .frame (.data 1 [7]), .pump 0 .panic]

theorem engine_tables_sample :
    ∃ s, Reachable (next sampleAccept) (init sampleAccept) s ∧ s.running.keys = [1] ∧
      s.running.keys.length ≤ sampleAccept.maxStreams := by
  have hrun : ((run (next sampleAccept) (init sampleAccept) (sampleFlood.take 3)).any
      (fun s => decide (s.running.keys = [1]))) = true := by decide
  rw [Option.any_eq_true] at hrun
  obtain ⟨s, hs, hk⟩ := hrun
  have hr : Reachable (next sampleAccept) (init sampleAccept) s := ⟨_, hs⟩
  exact ⟨s, hr, by simpa using hk, (engine_tables hr).2.1⟩

/-- Between the end of a pump and the turn that takes its task out, the count keeps what the queue
lost. -/
theorem ended_pump_keeps_count :
    ¬ (∀ cfg s, Reachable (next cfg) (init cfg) s → s.ended = none → ∀ id tid t,
      s.entries.lookup id = some tid → s.tasks[tid]? = some t → t.credited = true →
        t.pending = (t.inbound.map StreamIn.len).sum) := by
  intro h
  have hrun : ((run (next sampleAccept) (init sampleAccept) sampleFlood).any
      (fun s => decide (s.ended = none ∧ s.entries.lookup 1 = some 0 ∧
        (s.tasks[0]?).any (fun t => t.credited && decide (t.pending = 1 ∧ t.inbound = [])) = true))) =
          true := by
    decide
  rw [Option.any_eq_true] at hrun
  obtain ⟨s, hs, hk⟩ := hrun
  simp only [decide_eq_true_eq, Option.any_eq_true, Bool.and_eq_true] at hk
  obtain ⟨hend, hent, t, ht, hc, hp, hi⟩ := hk
  have hcount := h sampleAccept s ⟨_, hs⟩ hend 1 0 t hent ht hc
  rw [hp, hi] at hcount
  simp at hcount

end Engine

end CtAgent.Forward
