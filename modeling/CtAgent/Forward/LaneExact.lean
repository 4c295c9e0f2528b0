import CtAgent.Forward.LaneBytes

/-! The exact credit of a stream that goes on: a sender pays for what it queues and no more, and a receiver
reports all it does not owe any more. -/
namespace CtAgent.Forward
open CtAgent.Lib

/-- The chunk in hand, paid or not. -/
def Up.carried : Up → ℕ
  | .credit chunk => chunk.length
  | .window chunk => chunk.length
  | .room chunk => chunk.length
  | _ => 0

namespace Task
variable {t : Task} {m : PumpMove} {orphan : Bool} {i : UInt32}

/-- The task hands out what it has, takes up no more than a chunk at a time, and reports what it wrote from
half a window on. -/
structure Fair (t : Task) : Prop where
  tight : t.credit.Tight
  carried : t.up.carried ≤ dataChunkLen
  inbound : ∀ msg ∈ t.inbound, msg.len ≤ dataChunkLen
  writing : t.down.inWriting ≤ dataChunkLen
  unreported_lt : t.ended = false →
    t.unreported < fcWindow / 2 + if t.down = .reporting then dataChunkLen else 0

theorem fair_new (id : UInt32) (credited session : Bool) (phase : Phase) :
    (Task.new id credited session phase).Fair where
  tight := Semaphore.tight_new _
  carried := Nat.zero_le _
  inbound msg h := by cases h
  writing := Nat.zero_le _
  unreported_lt _ := show 0 < fcWindow / 2 + 0 by decide

theorem fair_finish (h : t.credit.Tight) : t.finish.Fair where
  tight := h.cancel ()
  carried := Nat.zero_le _
  inbound msg h := by cases h
  writing := Nat.zero_le _
  unreported_lt h := by cases h

/-- While nothing waits to be reported, less than half a window is unreported. -/
theorem Fair.unreported_half (h : t.Fair) (ha : t.ended = false) (hd : t.down ≠ .reporting) :
    t.unreported < fcWindow / 2 := by
  have hlt := h.unreported_lt ha
  rw [if_neg hd] at hlt
  exact hlt

@[simp] theorem carried_paid (t : Task) (chunk : Bytes) : (t.paid chunk).carried = chunk.length := by
  unfold paid
  split <;> rfl

theorem fair_moves (h : t.Fair) (hm : t.Moves orphan m) : m.task.Fair := by
  have ha := moves_running hm
  -- the half to the socket is left alone
  have hup {u : Task} (hc : u.credit.Tight) (hu : u.up.carried ≤ dataChunkLen) (hd : u.down = t.down)
      (hr : u.unreported = t.unreported) (hi : u.inbound = t.inbound) : u.Fair :=
    ⟨hc, hu, hi ▸ h.inbound, hd ▸ h.writing, fun _ => hr ▸ hd ▸ h.unreported_lt ha⟩
  -- the half from the socket is left alone, and nothing waits to be reported
  have hdown {u : Task} (hc : u.credit = t.credit) (hu : u.up = t.up) (hi : u.inbound ⊆ t.inbound)
      (hw : u.down.inWriting ≤ dataChunkLen) (hr : u.unreported < fcWindow / 2) : u.Fair :=
    ⟨hc ▸ h.tight, hu ▸ h.carried, fun msg hm => h.inbound msg (hi hm), hw,
      fun _ => Nat.lt_of_lt_of_le hr (Nat.le_add_right _ _)⟩
  cases hm with
  | stop frames => exact fair_finish h.tight
  | refused chunk => exact fair_finish h.tight
  | wroteStop payload rest => exact fair_finish h.tight
  | offered chunk hp hu h1 h2 => exact hup h.tight ((carried_paid t chunk).trans_le h2) rfl rfl rfl
  | bought chunk c hp hu h1 h2 hc hq =>
    exact hup (h.tight.acquire hq) ((carried_paid t chunk).trans_le h2) rfl rfl rfl
  | asked chunk c hp hu h1 h2 hc hq => exact hup (h.tight.acquire hq) h2 rfl rfl rfl
  | granted chunk n c hp hu hq =>
    have hle := h.carried
    rw [hu] at hle
    exact hup (h.tight.complete hq) ((carried_paid t chunk).trans_le hle) rfl rfl rfl
  | took chunk use hp hu =>
    have hle := h.carried
    rw [hu] at hle
    exact hup h.tight hle rfl rfl rfl
  | queued chunk => exact hup h.tight (Nat.zero_le _) rfl rfl rfl
  | closed => exact hup h.tight (Nat.zero_le _) rfl rfl rfl
  | closing u hp hu hcl =>
    refine hup h.tight ?_ rfl rfl rfl
    rcases hcl with rfl | rfl <;> exact Nat.zero_le _
  | recvData payload inbound hp hd hi =>
    have hle := h.inbound (.data payload) (hi ▸ List.mem_cons_self ..)
    exact hdown rfl rfl (hi ▸ List.subset_cons_self ..) hle (h.unreported_half ha (by simp [hd]))
  | recvClosed inbound hp hd hi =>
    exact hdown rfl rfl (hi ▸ List.subset_cons_self ..) (Nat.zero_le _) (h.unreported_half ha (by simp [hd]))
  | recvNone hp hd =>
    exact hdown rfl rfl (List.Subset.refl _) (Nat.zero_le _) (h.unreported_half ha (by simp [hd]))
  | wrote payload rest n hp hd =>
    have hle := h.writing
    rw [hd] at hle
    exact hdown rfl rfl (List.Subset.refl _) hle (h.unreported_half ha (by simp [hd]))
  | wroteAll payload rest hp hd =>
    exact hdown rfl rfl (List.Subset.refl _) (Nat.zero_le _) (h.unreported_half ha (by simp [hd]))
  | counted payload rest hp hd hc hn => exact hdown rfl rfl (List.Subset.refl _) (Nat.zero_le _) hn
  | reporting payload rest hp hd =>
    -- the payload that fills the half is a chunk
    have hle := h.writing
    rw [hd] at hle
    have hlt := h.unreported_half ha (by simp [hd])
    refine ⟨h.tight, h.carried, h.inbound, Nat.zero_le _, fun _ => ?_⟩
    simp only [goto, if_true]
    exact Nat.add_lt_add_of_lt_of_le hlt hle
  | wroteReported payload rest =>
    exact hdown rfl rfl (List.Subset.refl _) (Nat.zero_le _) (show 0 < fcWindow / 2 by decide)
  | downResetting payload rest hp hd =>
    exact hdown rfl rfl (List.Subset.refl _) (Nat.zero_le _) (h.unreported_half ha (by simp [hd]))
  | reported => exact hdown rfl rfl (List.Subset.refl _) (Nat.zero_le _) (show 0 < fcWindow / 2 by decide)
  | _ => exact hup h.tight h.carried rfl rfl rfl

/-- What a task queues is no more than a chunk. -/
theorem fair_frames (h : t.Fair) (hm : t.Moves orphan m) : ∀ f ∈ m.frames, f.dataFor i ≤ dataChunkLen := by
  intro f hf
  cases hm with
  | stop frames ha hfs =>
    rcases hfs with rfl | ⟨why, rfl⟩
    · cases hf
    · rw [List.mem_singleton.mp hf]
      exact Nat.zero_le _
  | queued chunk hp hu =>
    have hle := h.carried
    rw [hu] at hle
    rw [List.mem_singleton.mp hf]
    simp only [Frame.dataFor]
    split
    · exact hle
    · exact Nat.zero_le _
  | opened target =>
    rw [List.mem_singleton.mp hf]
    exact Nat.zero_le _
  | closed =>
    rw [List.mem_singleton.mp hf]
    exact Nat.zero_le _
  | wroteReported payload rest =>
    rw [List.mem_singleton.mp hf]
    exact Nat.zero_le _
  | reported =>
    rw [List.mem_singleton.mp hf]
    exact Nat.zero_le _
  | _ => cases hf

/-- A task that goes on spends exactly what it queues. -/
theorem spend_exact (h : t.Counted) (hc : t.credited = true) (hid : t.id = i) (hi : i ≠ controlId)
    (hm : t.Moves orphan m) (hend : m.task.ended = false) : m.task.spend + dataLen i m.frames = t.spend := by
  have hw := h.waiting
  cases hm with
  | stop frames => cases hend
  | refused chunk => cases hend
  | wroteStop payload rest => cases hend
  | offered chunk hp hu h1 h2 hn =>
    rw [hc] at hn
    cases hn
  | bought chunk c hp hu h1 h2 hn hq =>
    have ht := Semaphore.total_acquire_ready hq
    have hhand : t.up.hand = 0 := by rw [hu]; rfl
    simp only [goto, spend, hand_paid, dataLen_nil, hhand]
    omega
  | asked chunk c hp hu h1 h2 hn hq =>
    have ht := Semaphore.total_acquire_wait hq
    simp only [goto, spend, dataLen_nil, hu, Up.hand]
    omega
  | granted chunk n c hp hu hq =>
    have ht := Semaphore.total_complete hq
    rw [hu] at hw
    have hn := (Credit.complete_one hw hq).1
    have hhand : t.up.hand = 0 := by rw [hu]; rfl
    simp only [goto, spend, hand_paid, dataLen_nil, hhand]
    omega
  | took chunk use hp hu => simp only [spend, hu, Up.hand, dataLen_nil, Nat.add_zero]
  | queued chunk hp hu =>
    subst hid
    simp only [spend, hu, Up.hand, dataLen_cons, dataLen_nil, Frame.dataFor, ne_eq, hi, not_false_eq_true,
      and_self, if_true]
    omega
  | closed hp hu =>
    rcases hu with hu | hu <;>
      simp only [goto, spend, hu, Up.hand, dataLen_cons, dataLen_nil, Frame.dataFor, Nat.add_zero]
  | closing u hp hu hcl =>
    rcases hcl with rfl | rfl <;> simp only [goto, spend, hu, Up.hand, dataLen_nil, Nat.add_zero]
  | wroteReported payload rest hp hd =>
    rw [goto, dataLen_window]
    rfl
  | reported hp hd =>
    rw [goto, dataLen_window]
    rfl
  | _ => rfl

theorem creditLen_report {id : UInt32} {n : ℕ} (hid : id = i) (hn : n < 2 ^ 32) :
    creditLen i [windowFrame id (UInt32.ofNat n)] = n := by
  simp only [creditLen_cons, creditLen_nil, Frame.creditFor, windowFor_window, if_pos hid, Option.map_some,
    Option.getD_some, Nat.add_zero]
  rw [UInt32.toNat_ofNat', Nat.mod_eq_of_lt hn]

/-- A task that goes on reports exactly what it does not owe any more. -/
theorem owed_exact (h : t.Counted) (hc : t.credited = true) (hid : t.id = i) (hi : i ≠ controlId)
    (hle : t.owed ≤ fcWindow) (hm : t.Moves orphan m) (hend : m.task.ended = false)
    (hdown : m.task.down ≠ .resetting) : m.task.owed + creditLen i m.frames = t.owed := by
  have ha := moves_running hm
  have hpending := h.pending_eq hc ha
  have howed : t.owed = t.unreported + (t.pending + t.down.inWriting) := by
    rw [owed, if_pos hc]
  have hlt : t.owed < 2 ^ 32 := Nat.lt_of_le_of_lt hle (by decide)
  cases hm with
  | stop frames => cases hend
  | refused chunk => cases hend
  | wroteStop payload rest => cases hend
  | queued chunk hp hu =>
    rw [creditLen_data (hid ▸ hi)]
    rfl
  | recvData payload inbound hp hd hi =>
    rw [hi, List.map_cons, List.sum_cons] at hpending
    simp only [StreamIn.len] at hpending
    simp only [goto, owed, hc, hd, if_true, Down.inWriting, creditLen_nil]
    omega
  | recvClosed inbound hp hd hi =>
    simp only [goto, owed, hc, hd, if_true, Down.inWriting, creditLen_nil, Nat.add_zero]
  | recvNone hp hd =>
    simp only [goto, owed, hc, hd, if_true, Down.inWriting, creditLen_nil, Nat.add_zero]
  | wrote payload rest n hp hd =>
    simp only [goto, owed, hc, hd, if_true, Down.inWriting, creditLen_nil, Nat.add_zero]
  | wroteAll payload rest hp hd hn =>
    rw [hc] at hn
    cases hn
  | counted payload rest hp hd =>
    simp only [goto, owed, hc, hd, if_true, Down.inWriting, creditLen_nil]
    omega
  | reporting payload rest hp hd =>
    simp only [goto, owed, hc, hd, if_true, Down.inWriting, creditLen_nil]
    omega
  | wroteReported payload rest hp hd =>
    rw [hd, Down.inWriting] at howed
    have hn : t.unreported + payload.length < 2 ^ 32 := by omega
    simp only [goto, owed, hc, hd, if_true, Down.inWriting, creditLen_report hid hn]
    omega
  | downResetting payload rest => exact absurd rfl hdown
  | reported hp hd =>
    have hn : t.unreported < 2 ^ 32 := by omega
    simp only [goto, owed, hc, hd, if_true, Down.inWriting, creditLen_report hid hn]
    omega
  | _ => rfl

/-- A reset that waits for room stays one until the task stops. -/
theorem down_moves (hm : t.Moves orphan m) (hdown : m.task.down ≠ .resetting) (hend : m.task.ended = false) :
    t.down ≠ .resetting := by
  cases hm with
  | stop frames => cases hend
  | refused chunk => cases hend
  | wroteStop payload rest => cases hend
  | recvData payload inbound hp hd => simp [hd]
  | recvClosed inbound hp hd => simp [hd]
  | recvNone hp hd => simp [hd]
  | wrote payload rest n hp hd => simp [hd]
  | wroteAll payload rest hp hd => simp [hd]
  | counted payload rest hp hd => simp [hd]
  | reporting payload rest hp hd => simp [hd]
  | wroteReported payload rest hp hd => simp [hd]
  | downResetting payload rest hp hd => simp [hd]
  | reported hp hd => simp [hd]
  | _ => exact hdown

/-- Both halves of the pump and the credit are left as they are. -/
structure Kept (t t' : Task) : Prop where
  credited : t'.credited = t.credited
  phase : t'.phase = t.phase
  up : t'.up = t.up
  down : t'.down = t.down
  credit : t'.credit = t.credit
  creditOpen : t'.creditOpen = t.creditOpen
  unreported : t'.unreported = t.unreported

theorem Kept.ended {t' : Task} (h : t.Kept t') : t'.ended = t.ended := by
  rw [Task.ended, Task.ended, h.phase]

theorem Kept.trans {t' t'' : Task} (h : t.Kept t') (h' : t'.Kept t'') : t.Kept t'' where
  credited := h'.credited.trans h.credited
  phase := h'.phase.trans h.phase
  up := h'.up.trans h.up
  down := h'.down.trans h.down
  credit := h'.credit.trans h.credit
  creditOpen := h'.creditOpen.trans h.creditOpen
  unreported := h'.unreported.trans h.unreported

theorem kept_pushIn (msg : StreamIn) (t : Task) : t.Kept (Engine.pushIn msg t) := by
  unfold Engine.pushIn
  split <;> exact ⟨rfl, rfl, rfl, rfl, rfl, rfl, rfl⟩

theorem kept_countPending (payload : Bytes) (t : Task) : t.Kept (Engine.countPending payload t) := by
  unfold Engine.countPending
  split <;> exact ⟨rfl, rfl, rfl, rfl, rfl, rfl, rfl⟩

theorem Fair.kept {t' : Task} (h : t.Fair) (hk : t.Kept t') (hi : ∀ msg ∈ t'.inbound, msg.len ≤ dataChunkLen) :
    t'.Fair where
  tight := hk.credit ▸ h.tight
  carried := hk.up ▸ h.carried
  inbound := hi
  writing := hk.down ▸ h.writing
  unreported_lt ha := by
    rw [hk.ended] at ha
    rw [hk.unreported, hk.down]
    exact h.unreported_lt ha

theorem Fair.pushIn (h : t.Fair) {msg : StreamIn} (hm : msg.len ≤ dataChunkLen) :
    (Engine.pushIn msg t).Fair := by
  refine h.kept (kept_pushIn msg t) fun msg' hm' => ?_
  unfold Engine.pushIn at hm'
  split at hm'
  · exact h.inbound msg' hm'
  · rcases List.mem_append.mp hm' with hm' | hm'
    · exact h.inbound msg' hm'
    · rw [List.mem_singleton.mp hm']
      exact hm

theorem Fair.countPending (h : t.Fair) (payload : Bytes) : (Engine.countPending payload t).Fair := by
  refine h.kept (kept_countPending payload t) ?_
  unfold Engine.countPending
  split <;> exact h.inbound

end Task

theorem handed_kept {v v' : View} {t : Task} {msg : StreamIn} (h : Handed v t msg v') :
    ∃ t', v'.task = some t' ∧ t.Kept t' ∧ v'.entry = v.entry := by
  cases h with
  | now => exact ⟨_, rfl, Task.kept_pushIn msg t, rfl⟩
  | later => exact ⟨t, rfl, ⟨rfl, rfl, rfl, rfl, rfl, rfl, rfl⟩, rfl⟩

namespace View

/-- The stream runs with credit, and the engine still has its entry. -/
structure Runs (v : View) (t : Task) : Prop where
  task : v.task = some t
  entry : v.entry = true
  credited : t.credited = true
  running : t.ended = false

/-- The stream runs and will not give up what it was writing. -/
structure Takes (v : View) (t : Task) : Prop extends Runs v t where
  writes : t.down ≠ .resetting

/-- Everything of a stream at an engine comes in chunks, and the sender's half may go on as long as the engine
has the entry. -/
structure Fair (i : UInt32) (v : View) : Prop where
  task : ∀ t, v.task = some t → t.Fair
  wait : ∀ msg ∈ v.wait, msg.len ≤ dataChunkLen
  queued : ∀ f ∈ v.ctrl ++ v.out, f.dataFor i ≤ dataChunkLen
  creditOpen : v.entry = true → ∀ t, v.task = some t → t.creditOpen = true

section
variable {order initiates : Bool} {i : UInt32} {v v' : View} {inp w : List Frame} {t t' : Task}

theorem Runs.entry_ne (h : v.Runs t) (he : v.entry = false) : False := by
  rw [h.entry] at he
  cases he

theorem Runs.task_ne (h : v.Runs t) (hn : v.task = none) : False := by
  rw [h.task] at hn
  cases hn

theorem Runs.eq (h : v.Runs t) (ht : v.task = some t') : t' = t := by
  rw [h.task, Option.some.injEq] at ht
  exact ht.symm

theorem Runs.plain_ne (h : v.Runs t) (ht : v.task = some t') (hc : t'.credited = false) : False := by
  rw [h.eq ht, h.credited] at hc
  cases hc

/-- What runs behind a step ran in front of it. -/
theorem runs_before (hs : ViewStep order initiates i v inp v' w) (h : v'.Runs t') (ht : v.task = some t) :
    v.Runs t ∧ (t'.down ≠ .resetting → t.down ≠ .resetting) := by
  -- a step that leaves the task as it is
  have hsame : v'.task = v.task → v'.entry = v.entry → v.Runs t ∧
    (t'.down ≠ .resetting → t.down ≠ .resetting) := by
    intro h1 h2
    have he : t = t' := h.eq (h1.trans ht)
    subst he
    exact ⟨⟨ht, h2 ▸ h.entry, h.credited, h.running⟩, id⟩
  have hkept : ∀ u u', v.task = some u → v'.task = some u' → u.Kept u' → v'.entry = v.entry →
      v.Runs t ∧ (t'.down ≠ .resetting → t.down ≠ .resetting) := by
    intro u u' hu hu' hk he
    rw [ht, Option.some.injEq] at hu
    rw [h.task, Option.some.injEq] at hu'
    subst hu hu'
    exact ⟨⟨ht, he ▸ h.entry, hk.credited ▸ h.credited, hk.ended ▸ h.running⟩, fun hd => hk.down ▸ hd⟩
  have hnone : v.task = none → v.Runs t ∧ (t'.down ≠ .resetting → t.down ≠ .resetting) := by
    intro hn
    rw [ht] at hn
    cases hn
  cases hs with
  | gone => exact (h.entry_ne rfl).elim
  | connected session target hi hn => exact hnone hn
  | connectedPlain target hi hn => exact hnone hn
  | opened c session target hi hn => exact hnone hn
  | pump u m orphan hu hm =>
    have hm' := h.eq rfl
    subst hm'
    rw [ht, Option.some.injEq] at hu
    subst hu
    exact ⟨⟨ht, h.entry, Task.moves_credited hm ▸ h.credited, Task.moves_running hm⟩,
      fun hd => Task.down_moves hm hd h.running⟩
  | delivered v' u payload hu he hw hx hv =>
    obtain ⟨u', hu', hk, he'⟩ := handed_kept hv
    exact hkept u u' hu hu' ((Task.kept_countPending payload u).trans hk) he'
  | closed v' u hu he hw hv =>
    obtain ⟨u', hu', hk, he'⟩ := handed_kept hv
    exact hkept u u' hu hu' hk he'
  | aborted v' u reason hu he hw hv =>
    -- the entry is taken out
    obtain ⟨-, -, -, he'⟩ := handed_kept hv
    exact (h.entry_ne he').elim
  | credit u f bytes hf hu he hc hb =>
    have hu' := h.eq rfl
    subst hu'
    rw [ht, Option.some.injEq] at hu
    subst hu
    exact ⟨⟨ht, h.entry, h.credited, h.running⟩, id⟩
  | unblocked u msg hu hw => exact hkept u _ hu rfl (Task.kept_pushIn msg u) rfl
  | joined u u' hu hp hu' => exact (h.entry_ne rfl).elim
  | _ => exact hsame rfl rfl

theorem takes_before (hs : ViewStep order initiates i v inp v' w) (h : v'.Takes t') (ht : v.task = some t) :
    v.Takes t := by
  obtain ⟨hr, hd⟩ := runs_before hs h.toRuns ht
  exact ⟨hr, hd h.writes⟩

theorem Fair.handed (h : v.Fair i) {u : View} {msg : StreamIn} (ht : t.Fair) (hm : msg.len ≤ dataChunkLen)
    (hopen : u.entry = true → t.creditOpen = true) (hc : u.ctrl = v.ctrl) (ho : u.out = v.out)
    (hw : u.wait = v.wait)
    (hv : Handed u t msg v') : v'.Fair i := by
  have hqueued : ∀ f ∈ u.ctrl ++ u.out, f.dataFor i ≤ dataChunkLen := by
    rw [hc, ho]
    exact h.queued
  cases hv with
  | now =>
    refine ⟨fun t' ht' => ?_, fun msg' hm' => h.wait msg' (hw ▸ hm'), hqueued, fun he t' ht' => ?_⟩
    · cases ht'
      exact ht.pushIn hm
    · cases ht'
      exact (Task.kept_pushIn msg t).creditOpen.trans (hopen he)
  | later =>
    refine ⟨fun t' ht' => ?_, fun msg' hm' => ?_, hqueued, fun he t' ht' => ?_⟩
    · cases ht'
      exact ht
    · rw [List.mem_singleton.mp hm']
      exact hm
    · cases ht'
      exact hopen he

theorem Fair.step (h : v.Fair i) (hs : ViewStep order initiates i v inp v' w) (hi : i ≠ controlId)
    (hinp : ∀ f ∈ inp, f.dataFor i ≤ dataChunkLen) : v'.Fair i ∧ ∀ f ∈ w, f.dataFor i ≤ dataChunkLen := by
  have hno : ∀ f ∈ ([] : List Frame), f.dataFor i ≤ dataChunkLen := fun f hf => by cases hf
  -- a stream that begins
  have hnew : ∀ (credited session : Bool) (phase : Phase) (fs : List Frame),
      (∀ f ∈ fs, f.dataFor i ≤ dataChunkLen) →
      ({ v with task := some (.new i credited session phase), entry := true, ctrl := v.ctrl ++ fs } :
        View).Fair i := by
    intro credited session phase fs hfs
    refine ⟨fun t ht => ?_, h.wait, fun f hf => ?_, fun _ t ht => ?_⟩
    · cases ht
      exact Task.fair_new ..
    · simp only [List.mem_append] at hf
      rcases hf with (hf | hf) | hf
      · exact h.queued f (List.mem_append_left _ hf)
      · exact hfs f hf
      · exact h.queued f (List.mem_append_right _ hf)
    · cases ht
      rfl
  -- a task that changes
  have hone : ∀ (u : Task) (entry : Bool) (wait : List StreamIn) (fs : List Frame), u.Fair →
      (∀ msg ∈ wait, msg.len ≤ dataChunkLen) → (entry = true → u.creditOpen = true) →
      (∀ f ∈ fs, f.dataFor i ≤ dataChunkLen) →
      (⟨some u, entry, wait, v.ctrl, v.out ++ fs⟩ : View).Fair i := by
    intro u entry wait fs hu hwait hopen hfs
    refine ⟨fun t ht => ?_, hwait, fun f hf => ?_, fun he t ht => ?_⟩
    · cases ht
      exact hu
    · simp only [List.mem_append] at hf
      rcases hf with hf | hf | hf
      · exact h.queued f (List.mem_append_left _ hf)
      · exact h.queued f (List.mem_append_right _ hf)
      · exact hfs f hf
    · cases ht
      exact hopen he
  cases hs with
  | gone => exact ⟨⟨h.task, h.wait, h.queued, fun he => by cases he⟩, hno⟩
  | connected session target hi hn => exact ⟨hnew true session .pumping [.open i target] (fun f hf => by
      rw [List.mem_singleton.mp hf]
      exact Nat.zero_le _), hno⟩
  | connectedPlain target hi hn =>
    have hf := hnew false false (.spawned target) [] hno
    rw [List.append_nil] at hf
    exact ⟨hf, hno⟩
  | opened c session target hi hn =>
    have hf := hnew c session .dialing [] hno
    rw [List.append_nil] at hf
    exact ⟨hf, hno⟩
  | openRefused target reason hi hn =>
    refine ⟨⟨h.task, h.wait, fun f hf => ?_, h.creditOpen⟩, hno⟩
    simp only [List.mem_append, List.mem_singleton] at hf
    rcases hf with (hf | rfl) | hf
    · exact h.queued f (List.mem_append_left _ hf)
    · exact Nat.zero_le _
    · exact h.queued f (List.mem_append_right _ hf)
  | pump u m orphan hu hm =>
    exact ⟨hone m.task v.entry v.wait m.frames (Task.fair_moves (h.task u hu) hm) h.wait
      (fun he => (Task.moves_creditOpen hm).trans (h.creditOpen he u hu))
        (Task.fair_frames (h.task u hu) hm), hno⟩
  | delivered v' u payload hu he hw hx hv =>
    have hlen : (StreamIn.data payload).len ≤ dataChunkLen := by
      have hle := hinp _ (List.mem_singleton_self _)
      simp only [Frame.dataFor, ne_eq, hi, not_false_eq_true, and_self, if_true] at hle
      exact hle
    exact ⟨h.handed ((h.task u hu).countPending payload) hlen
      (fun he => (Task.kept_countPending payload u).creditOpen.trans (h.creditOpen he u hu)) rfl
        rfl rfl hv, hno⟩
  | closed v' u hu he hw hv =>
    exact ⟨h.handed (h.task u hu) (Nat.zero_le _) (fun he => h.creditOpen he u hu) rfl rfl rfl hv, hno⟩
  | aborted v' u reason hu he hw hv =>
    have hf := h.task u hu
    exact ⟨h.handed (u := { v with entry := false }) (t := Engine.closeCredit u)
      ⟨hf.tight, hf.carried, hf.inbound, hf.writing, hf.unreported_lt⟩ (Nat.zero_le _) (fun he => by cases he)
      rfl rfl rfl hv, hno⟩
  | credit u f bytes hf hu he hc hb =>
    have hfair := h.task u hu
    have hq := hone (Engine.addCredit bytes.toNat u) v.entry v.wait []
      ⟨hfair.tight.addPermits _, hfair.carried, hfair.inbound, hfair.writing, hfair.unreported_lt⟩ h.wait
      (fun he => h.creditOpen he u hu) hno
    rw [List.append_nil] at hq
    exact ⟨hq, hno⟩
  | unblocked u msg hu hw =>
    have hq := hone (Engine.pushIn msg u) v.entry [] []
      ((h.task u hu).pushIn (h.wait msg (hw ▸ List.mem_singleton_self _)))
      (fun msg hm => by cases hm)
      (fun he => (Task.kept_pushIn msg u).creditOpen.trans (h.creditOpen he u hu)) hno
    rw [List.append_nil] at hq
    exact ⟨hq, hno⟩
  | joined u u' hu hp hu' =>
    have hf := h.task u hu
    have hjoined : u'.Fair := by
      rcases hu' with rfl | rfl <;> exact ⟨hf.tight, hf.carried, hf.inbound, hf.writing, fun ha => by cases ha⟩
    have hq := hone u' false v.wait [] hjoined h.wait (fun he => by cases he) hno
    rw [List.append_nil] at hq
    exact ⟨hq, hno⟩
  | pollCtrl f ctrl hq =>
    have hall := h.queued
    rw [hq] at hall
    exact ⟨⟨h.task, h.wait, fun g hg => hall g (List.mem_cons_of_mem _ hg), h.creditOpen⟩,
      fun g hg => hall g (List.mem_singleton.mp hg ▸ List.mem_cons_self ..)⟩
  | pollOut f out hq =>
    have hall := h.queued
    rw [hq] at hall
    refine ⟨⟨h.task, h.wait, fun g hg => hall g ?_, h.creditOpen⟩, fun g hg => hall g ?_⟩
    · rcases List.mem_append.mp hg with hg | hg
      · exact List.mem_append_left _ hg
      · exact List.mem_append_right _ (List.mem_cons_of_mem _ hg)
    · rw [List.mem_singleton.mp hg]
      exact List.mem_append_right _ (List.mem_cons_self ..)
  | _ => exact ⟨h, hno⟩

theorem spend_kept (hk : t.Kept t') : t'.spend = t.spend := spend_congr hk.credit hk.up

/-- A sender that goes on: its credit, what it queued and what it wrote grow by what it is granted. -/
theorem spend_exact (hs : ViewStep order initiates i v inp v' w) (hcount : v.Counted) (h : v'.Runs t')
    (hi : i ≠ controlId) (hid : ∀ t, v.task = some t → t.id = i) :
    v'.spend + dataLen i (v'.ctrl ++ v'.out) + dataLen i w =
      v.spend + dataLen i (v.ctrl ++ v.out) + creditLen i inp := by
  have hkeep : v'.spend = v.spend → v'.ctrl = v.ctrl → v'.out = v.out → w = [] → creditLen i inp = 0 →
      v'.spend + dataLen i (v'.ctrl ++ v'.out) + dataLen i w =
        v.spend + dataLen i (v.ctrl ++ v.out) + creditLen i inp := by
    intro h1 h2 h3 h4 h5
    rw [h1, h2, h3, h4, h5, dataLen_nil]
  cases hs with
  | stay => exact hkeep rfl rfl rfl rfl rfl
  | gone => exact (h.entry_ne rfl).elim
  | openIgnored => exact hkeep rfl rfl rfl rfl rfl
  | lost f he => exact (h.entry_ne he).elim
  | windowIgnored u f bytes hf ht hc => exact (h.plain_ne ht hc).elim
  | connected session target hs hn =>
    have hd : dataLen i [Frame.open i target] = 0 := rfl
    rw [spend_none hn, spend_some rfl, spend_new]
    simp only [dataLen_append, hd, dataLen_nil, creditLen_nil, Nat.add_zero]
  | connectedPlain target hs hn => exact (h.plain_ne rfl rfl).elim
  | opened c session target hs hn =>
    have hc : c = true := by
      have hc' := h.credited
      rw [← h.eq rfl] at hc'
      exact hc'
    subst hc
    refine hkeep ?_ rfl rfl rfl rfl
    rw [spend_none hn, spend_some rfl, spend_new]
  | openRefused target reason hs hn => exact (h.task_ne hn).elim
  | pump u m orphan hu hm =>
    have hm' := h.eq rfl
    subst hm'
    have hsp := Task.spend_exact (hcount u hu) (Task.moves_credited hm ▸ h.credited) (hid u hu) hi hm h.running
    rw [spend_some hu, spend_some rfl]
    simp only [dataLen_append, dataLen_nil, creditLen_nil]
    omega
  | delivered v' u payload hu he hw hx hv =>
    obtain ⟨h1, h2, h3⟩ := spend_handed hv
    refine hkeep ?_ h2 h3 rfl (Task.creditLen_data hi payload)
    rw [h1, spend_some hu, spend_kept (Task.kept_countPending payload u)]
  | closed v' u hu he hw hv =>
    obtain ⟨h1, h2, h3⟩ := spend_handed hv
    exact hkeep (by rw [h1, spend_some hu]) h2 h3 rfl rfl
  | aborted v' u reason hu he hw hv =>
    obtain ⟨-, -, -, he'⟩ := handed_kept hv
    exact (h.entry_ne he').elim
  | credit u f bytes hf ht =>
    rw [spend_some ht, spend_some rfl, creditLen_windowFor hf]
    simp only [Task.spend, Engine.addCredit, Semaphore.total_addPermits, dataLen_nil]
    omega
  | unblocked u msg ht =>
    refine hkeep ?_ rfl rfl rfl rfl
    rw [spend_some ht, spend_some rfl, spend_kept (Task.kept_pushIn msg u)]
  | joined u u' ht hp ht' => exact (h.entry_ne rfl).elim
  | pollCtrl f ctrl hq =>
    have hsp : ({ v with ctrl := ctrl } : View).spend = v.spend := rfl
    rw [hsp, hq]
    simp only [dataLen_append, dataLen_cons, dataLen_nil, creditLen_nil]
    omega
  | pollOut f out hq =>
    have hsp : ({ v with out := out } : View).spend = v.spend := rfl
    rw [hsp, hq]
    simp only [dataLen_append, dataLen_cons, dataLen_nil, creditLen_nil]
    omega

theorem dataFor_windowFor {f : Frame} {bytes : UInt32} (hf : f.windowFor i = some bytes) :
    f.dataFor i = 0 := by
  cases f with
  | data id payload =>
    simp only [Frame.windowFor] at hf
    split at hf
    · rename_i hid
      simp [Frame.dataFor, hid]
    · cases hf
  | _ => rfl

theorem owed_countPending {payload : Bytes} (hc : t.credited = true) :
    (Engine.countPending payload t).owed = t.owed + payload.length := by
  simp only [Engine.countPending, Task.owed, hc, if_true]
  omega

/-- A receiver that goes on: what it owes, what it queued and what it wrote grow by what it gets. -/
theorem owed_exact (hs : ViewStep order initiates i v inp v' w) (hcount : v.Counted) (h : v'.Takes t')
    (hi : i ≠ controlId) (hid : ∀ t, v.task = some t → t.id = i) (hle : v.owed ≤ fcWindow) :
    v'.owed + creditLen i (v'.ctrl ++ v'.out) + creditLen i w =
      v.owed + creditLen i (v.ctrl ++ v.out) + dataLen i inp := by
  have hkeep : v'.owed = v.owed + dataLen i inp → v'.ctrl = v.ctrl → v'.out = v.out → w = [] →
      v'.owed + creditLen i (v'.ctrl ++ v'.out) + creditLen i w =
        v.owed + creditLen i (v.ctrl ++ v.out) + dataLen i inp := by
    intro h1 h2 h3 h4
    rw [h1, h2, h3, h4, creditLen_nil]
    omega
  cases hs with
  | stay => exact hkeep rfl rfl rfl rfl
  | gone => exact (h.entry_ne rfl).elim
  | openIgnored => exact hkeep rfl rfl rfl rfl
  | lost f he => exact (h.entry_ne he).elim
  | windowIgnored u f bytes hf ht hc => exact (h.plain_ne ht hc).elim
  | connected session target hs hn =>
    have hd : creditLen i [Frame.open i target] = 0 := rfl
    rw [owed_none hn, owed_some rfl, owed_new]
    simp only [creditLen_append, hd, creditLen_nil, dataLen_nil, Nat.add_zero]
  | connectedPlain target hs hn => exact hkeep (by rw [owed_none hn, owed_some rfl, owed_new]; rfl) rfl rfl rfl
  | opened c session target hs hn =>
    exact hkeep (by rw [owed_none hn, owed_some rfl, owed_new]; rfl) rfl rfl rfl
  | openRefused target reason hs hn => exact (h.task_ne hn).elim
  | pump u m orphan hu hm =>
    have hm' := h.eq rfl
    subst hm'
    rw [owed_some hu] at hle
    have how := Task.owed_exact (hcount u hu) (Task.moves_credited hm ▸ h.credited)
      (hid u hu) hi hle hm h.running
      h.writes
    rw [owed_some hu, owed_some rfl]
    simp only [creditLen_append, creditLen_nil, dataLen_nil]
    omega
  | delivered v' u payload hu he hw hx hv =>
    obtain ⟨u', hu', hk, -⟩ := handed_kept hv
    obtain ⟨h1, h2, h3⟩ := owed_handed hv
    have hc : u.credited = true := by
      rw [← Engine.countPending_credited payload u, ← hk.credited, h.eq hu']
      exact h.credited
    refine hkeep ?_ h2 h3 rfl
    rw [h1, owed_some hu, owed_countPending hc]
    simp [Frame.dataFor, hi]
  | closed v' u hu he hw hv =>
    obtain ⟨h1, h2, h3⟩ := owed_handed hv
    exact hkeep (by rw [h1, owed_some hu]; rfl) h2 h3 rfl
  | aborted v' u reason hu he hw hv =>
    obtain ⟨-, -, -, he'⟩ := handed_kept hv
    exact (h.entry_ne he').elim
  | credit u f bytes hf ht =>
    refine hkeep ?_ rfl rfl rfl
    rw [owed_some ht, owed_some rfl, dataLen_cons, dataFor_windowFor hf]
    exact owed_congr rfl rfl rfl rfl
  | unblocked u msg ht =>
    refine hkeep ?_ rfl rfl rfl
    rw [owed_some ht, owed_some rfl]
    exact owed_pushIn msg u
  | joined u u' ht hp ht' => exact (h.entry_ne rfl).elim
  | pollCtrl f ctrl hq =>
    have how : ({ v with ctrl := ctrl } : View).owed = v.owed := rfl
    rw [how, hq]
    simp only [creditLen_append, creditLen_cons, creditLen_nil, dataLen_nil]
    omega
  | pollOut f out hq =>
    have how : ({ v with out := out } : View).owed = v.owed := rfl
    rw [how, hq]
    simp only [creditLen_append, creditLen_cons, creditLen_nil, dataLen_nil]
    omega

/-- An engine without the stream hands no credit out. -/
theorem absent_exact (hs : ViewStep order initiates i v inp v' w) (hn : v'.task = none) :
    creditLen i (v'.ctrl ++ v'.out) + creditLen i w = creditLen i (v.ctrl ++ v.out) := by
  cases hs with
  | openRefused target reason hs' hn' =>
    have hd : creditLen i [Frame.close i (some reason)] = 0 := rfl
    simp only [creditLen_append, hd, creditLen_nil, Nat.add_zero]
  | connected session target hs' hn' => cases hn
  | connectedPlain target hs' hn' => cases hn
  | opened c session target hs' hn' => cases hn
  | pump t m orphan ht hm => cases hn
  | delivered v' t payload ht he hw hx hv =>
    obtain ⟨t', ht', -, -⟩ := handed_kept hv
    rw [hn] at ht'
    cases ht'
  | closed v' t ht he hw hv =>
    obtain ⟨t', ht', -, -⟩ := handed_kept hv
    rw [hn] at ht'
    cases ht'
  | aborted v' t reason ht he hw hv =>
    obtain ⟨t', ht', -, -⟩ := handed_kept hv
    rw [hn] at ht'
    cases ht'
  | credit t f bytes hf ht => cases hn
  | unblocked t msg ht => cases hn
  | joined t t' ht => cases hn
  | pollCtrl f ctrl hq =>
    rw [hq]
    simp only [creditLen_append, creditLen_cons, creditLen_nil]
    omega
  | pollOut f out hq =>
    rw [hq]
    simp only [creditLen_append, creditLen_cons, creditLen_nil]
    omega
  | _ => simp only [creditLen_nil, Nat.add_zero]

end

end View

end CtAgent.Forward
