import CtAgent.Forward.Pair

/-! One stream of a pair: its Open is sent and taken once, and in each direction no more bytes are
on their way than the credit of the stream allows. -/
namespace CtAgent.Forward
open CtAgent.Lib

def Task.unopened (t : Task) : Bool :=
  match t.phase with
  | .spawned _ | .opening _ => true
  | _ => false

namespace View

def known (v : View) : ℕ := if v.task.isSome then 1 else 0

def unopened (v : View) : ℕ := if v.task.any Task.unopened then 1 else 0

end View

/-- Bytes of stream `i` in a frame, and the credit it grants the stream. -/
def Frame.dataFor (i : UInt32) : Frame → ℕ
  | .data id payload => if id ≠ controlId ∧ id = i then payload.length else 0
  | _ => 0

def Frame.creditFor (i : UInt32) (f : Frame) : ℕ := ((f.windowFor i).map UInt32.toNat).getD 0

def dataLen (i : UInt32) (fs : List Frame) : ℕ := (fs.map (Frame.dataFor i)).sum

def creditLen (i : UInt32) (fs : List Frame) : ℕ := (fs.map (Frame.creditFor i)).sum

def openCount (i : UInt32) (fs : List Frame) : ℕ := fs.countP (Frame.opens i)

section
variable (i : UInt32) (fs gs : List Frame) (f : Frame)

@[simp] theorem dataLen_nil : dataLen i [] = 0 := rfl
@[simp] theorem dataLen_cons : dataLen i (f :: fs) = f.dataFor i + dataLen i fs := by
  simp [dataLen]
@[simp] theorem dataLen_append : dataLen i (fs ++ gs) = dataLen i fs + dataLen i gs := by
  simp [dataLen]
@[simp] theorem creditLen_nil : creditLen i [] = 0 := rfl
@[simp] theorem creditLen_cons : creditLen i (f :: fs) = f.creditFor i + creditLen i fs := by
  simp [creditLen]
@[simp] theorem creditLen_append : creditLen i (fs ++ gs) = creditLen i fs + creditLen i gs := by
  simp [creditLen]
@[simp] theorem openCount_nil : openCount i [] = 0 := rfl
@[simp] theorem openCount_cons :
    openCount i (f :: fs) = (if f.opens i then 1 else 0) + openCount i fs := by
  rw [openCount, List.countP_cons, Nat.add_comm]
  rfl
@[simp] theorem openCount_append : openCount i (fs ++ gs) = openCount i fs + openCount i gs := by
  simp [openCount]

end

/-- The chunk in hand that has paid its credit. -/
def Up.hand : Up → ℕ
  | .window chunk => chunk.length
  | .room chunk => chunk.length
  | _ => 0

/-- What `write_all` works on. -/
def Down.inWriting : Down → ℕ
  | .writing payload _ => payload.length
  | _ => 0

namespace Task

def spend (t : Task) : ℕ := t.credit.total + t.up.hand

/-- Bytes of a credited stream that came in and were not reported back. -/
def owed (t : Task) : ℕ := t.unreported + if t.credited then t.pending + t.down.inWriting else 0

variable {t : Task} {m : PumpMove} {orphan : Bool} {i : UInt32}

theorem unopened_congr {t' : Task} (h : t'.phase = t.phase) : t'.unopened = t.unopened := by
  rw [unopened, unopened, h]

/-- Only a task that opens its stream queues an Open, and then it is opened. -/
theorem moves_opens (hm : t.Moves orphan m) :
    openCount i m.frames + (if m.task.unopened then 1 else 0) ≤ if t.unopened then 1 else 0 := by
  have hsame : ∀ t' : Task, t'.phase = t.phase →
      0 + (if t'.unopened then 1 else 0) ≤ if t.unopened then 1 else 0 := by
    intro t' h
    rw [unopened_congr h, Nat.zero_add]
  cases hm with
  | stop frames ha hf =>
    rcases hf with rfl | ⟨why, rfl⟩
    · exact Nat.zero_le _
    · exact Nat.zero_le _
  | opened target hp =>
    have hu : t.unopened = true := by
      rcases hp with hp | hp <;> rw [unopened, hp]
    rw [if_pos hu]
    change openCount i [.open t.id target] + 0 ≤ 1
    simp only [openCount_cons, openCount_nil]
    split <;> simp
  | opening target hp =>
    have hu : t.unopened = true := by rw [unopened, hp]
    rw [if_pos hu]
    exact Nat.le_refl 1
  | dialed => exact Nat.zero_le _
  | refusing => exact Nat.zero_le _
  | idling => exact Nat.zero_le _
  | refused => exact Nat.zero_le _
  | wroteStop => exact Nat.zero_le _
  | _ => exact hsame _ rfl

@[simp] theorem hand_paid (t : Task) (chunk : Bytes) : (t.paid chunk).hand = chunk.length := by
  unfold paid
  split <;> rfl

theorem dataLen_data_le (id : UInt32) (chunk : Bytes) : dataLen i [.data id chunk] ≤ chunk.length := by
  simp only [dataLen_cons, dataLen_nil, Frame.dataFor]
  split <;> omega

theorem dataLen_window (id bytes : UInt32) : dataLen i [windowFrame id bytes] = 0 := by
  simp only [dataLen_cons, dataLen_nil, windowFrame, Frame.dataFor, ne_eq, not_true_eq_false, false_and,
    if_false]

theorem windowFor_window (id bytes : UInt32) :
    (windowFrame id bytes).windowFor i = if id = i then some bytes else none := by
  have hp := parseControl_window id bytes
  simp only [windowFrame, Frame.payload] at hp
  simp only [Frame.windowFor, windowFrame, if_true, hp]

theorem creditLen_window_le (id : UInt32) (n : ℕ) : creditLen i [windowFrame id (UInt32.ofNat n)] ≤ n := by
  have hn : (UInt32.ofNat n).toNat ≤ n := by
    rw [UInt32.toNat_ofNat']
    exact Nat.mod_le _ _
  generalize UInt32.ofNat n = bytes at hn ⊢
  simp only [creditLen_cons, creditLen_nil, Frame.creditFor, windowFor_window]
  split
  · simpa using hn
  · simp

theorem creditLen_data {id : UInt32} (hid : id ≠ controlId) (chunk : Bytes) :
    creditLen i [.data id chunk] = 0 := by
  simp only [creditLen_cons, creditLen_nil, Frame.creditFor, Frame.windowFor, if_neg hid, Option.map_none,
    Option.getD_none]

theorem spend_finish_le (t : Task) : t.finish.spend ≤ t.spend := by
  simp only [spend, finish, Up.hand, Semaphore.total_cancel]
  omega

/-- A credited task queues no more than its chunk in hand, and pays for the chunk it takes up. -/
theorem spend_moves (h : t.Counted) (hc : t.credited = true) (hm : t.Moves orphan m) :
    m.task.spend + dataLen i m.frames ≤ t.spend := by
  have hw := h.waiting
  -- what a stopped task does not spend any more
  have hstop : ∀ (u : Task) (frames : List Frame), u.credit = t.credit → u.up = t.up →
      dataLen i frames = 0 → u.finish.spend + dataLen i frames ≤ t.spend := by
    intro u frames h1 h2 h3
    have hu : u.spend = t.spend := by simp only [spend, h1, h2]
    have hle := spend_finish_le u
    omega
  cases hm with
  | stop frames ha hf =>
    rcases hf with rfl | ⟨why, rfl⟩
    · exact hstop t _ rfl rfl rfl
    · exact hstop t _ rfl rfl rfl
  | refused chunk => exact hstop _ _ rfl rfl rfl
  | wroteStop payload rest => exact hstop _ _ rfl rfl rfl
  | offered chunk hp hu h1 h2 hn =>
    rw [hc] at hn
    cases hn
  | bought chunk c hp hu h1 h2 hn hq =>
    have ht := Semaphore.total_acquire_ready hq
    simp only [goto, spend, hand_paid, dataLen_nil]
    omega
  | asked chunk c hp hu h1 h2 hn hq =>
    have ht := Semaphore.total_acquire_wait hq
    simp only [goto, spend, dataLen_nil, hu, Up.hand]
    omega
  | granted chunk n c hp hu hq =>
    have ht := Semaphore.total_complete hq
    rw [hu] at hw
    have hn := (Credit.complete_one hw hq).1
    simp only [goto, spend, hand_paid, dataLen_nil]
    omega
  | took chunk use hp hu => simp only [spend, hu, Up.hand, dataLen_nil, Nat.add_zero, Nat.le_refl]
  | queued chunk hp hu =>
    have hd := dataLen_data_le (i := i) t.id chunk
    simp only [spend, hu, Up.hand]
    omega
  | closed hp hu =>
    simp only [goto, spend, Up.hand, dataLen_cons, dataLen_nil, Frame.dataFor]
    omega
  | closing u hp hu hcl =>
    rcases hcl with rfl | rfl <;> simp only [goto, spend, Up.hand, dataLen_nil] <;> omega
  | wroteReported payload rest hp hd =>
    rw [goto, dataLen_window]
    exact Nat.le_refl _
  | reported hp hd =>
    rw [goto, dataLen_window]
    exact Nat.le_refl _
  | _ => exact Nat.le_refl _

/-- What came in and was not reported can only grow by `pending` and what `write_all` works on. -/
theorem owed_le {u : Task} (hc : u.credited = t.credited) (hr : u.unreported ≤ t.unreported)
    (hp : u.pending + u.down.inWriting ≤ t.pending + t.down.inWriting) : u.owed ≤ t.owed := by
  unfold owed
  rw [hc]
  split <;> omega

/-- A task reports no more than came in. -/
theorem owed_moves (h : t.Counted) (hid : t.id ≠ controlId) (hm : t.Moves orphan m) :
    m.task.owed + creditLen i m.frames ≤ t.owed := by
  have ha := moves_running hm
  have hstop : t.finish.owed ≤ t.owed := owed_le rfl (Nat.le_refl _) (Nat.add_le_add_left (Nat.zero_le _) _)
  cases hm with
  | stop frames ha hf =>
    rcases hf with rfl | ⟨why, rfl⟩
    · exact hstop
    · exact hstop
  | refused chunk => exact hstop
  | queued chunk hp hu =>
    rw [creditLen_data hid]
    exact Nat.le_refl _
  | recvData payload inbound hp hd hi =>
    by_cases hc : t.credited = true
    · have he := h.pending_eq hc ha
      rw [hi, List.map_cons, List.sum_cons] at he
      simp only [StreamIn.len] at he
      simp only [goto, owed, hc, hd, if_true, Down.inWriting, creditLen_nil]
      omega
    · simp only [goto, owed, if_neg hc, creditLen_nil, Nat.le_refl]
  | recvClosed inbound hp hd hi =>
    exact owed_le rfl (Nat.le_refl _) (Nat.add_le_add_left (Nat.zero_le _) _)
  | recvNone hp hd => exact owed_le rfl (Nat.le_refl _) (Nat.add_le_add_left (Nat.zero_le _) _)
  | wrote payload rest n hp hd =>
    exact owed_le rfl (Nat.le_refl _) (by rw [hd]; exact Nat.le_refl _)
  | wroteAll payload rest hp hd hc =>
    exact owed_le rfl (Nat.le_refl _) (Nat.add_le_add_left (Nat.zero_le _) _)
  | counted payload rest hp hd hc hn =>
    simp only [goto, owed, hc, hd, if_true, Down.inWriting, creditLen_nil]
    omega
  | reporting payload rest hp hd hc =>
    simp only [goto, owed, hc, hd, if_true, Down.inWriting, creditLen_nil]
    omega
  | wroteReported payload rest hp hd hc =>
    have hw := creditLen_window_le (i := i) t.id (t.unreported + payload.length)
    simp only [goto, owed, hc, hd, if_true, Down.inWriting]
    omega
  | wroteStop payload rest hp hd hc =>
    simp only [stop, finish, owed, hc, hd, if_true, Down.inWriting, creditLen_nil]
    omega
  | downResetting payload rest hp hd =>
    exact owed_le rfl (Nat.le_refl _) (Nat.add_le_add_left (Nat.zero_le _) _)
  | reported hp hd =>
    have hw := creditLen_window_le (i := i) t.id t.unreported
    have hle : ({ t with unreported := 0, down := .receiving } : Task).owed + t.unreported ≤ t.owed := by
      simp only [owed]
      split
      · simp only [hd, Down.inWriting]
        omega
      · omega
    exact Nat.le_trans (Nat.add_le_add_left hw _) hle
  | _ => exact Nat.le_refl _

end Task

theorem View.known_some {v : View} {t : Task} (h : v.task = some t) : v.known = 1 := by
  simp [View.known, h]

theorem View.unopened_some {v : View} {t : Task} (h : v.task = some t) :
    v.unopened = if t.unopened then 1 else 0 := by
  simp [View.unopened, h]

theorem handed_task {v v' : View} {t : Task} {msg : StreamIn} (h : Handed v t msg v') :
    ∃ t', v'.task = some t' ∧ t'.phase = t.phase ∧ t'.credited = t.credited ∧ v'.ctrl = v.ctrl ∧
      v'.out = v.out := by
  cases h with
  | now => exact ⟨_, rfl, Engine.pushIn_phase _ _, Engine.pushIn_credited _ _, rfl, rfl⟩
  | later => exact ⟨_, rfl, rfl, rfl, rfl, rfl⟩

/-- An initiate engine queues one Open for a stream, when it makes it or when its task starts. -/
theorem opens_initiate {order : Bool} {i : UInt32} {v v' : View} {inp w : List Frame}
    (h : ViewStep order true i v inp v' w) :
    openCount i (w ++ v'.ctrl ++ v'.out) + v'.unopened + v.known ≤
      openCount i (v.ctrl ++ v.out) + v.unopened + v'.known := by
  -- a step that keeps the queues and the phase of the task
  have hkeep : ∀ t t' : Task, v.task = some t → v'.task = some t' → t'.phase = t.phase →
      v'.ctrl = v.ctrl → v'.out = v.out → w = [] →
      openCount i (w ++ v'.ctrl ++ v'.out) + v'.unopened + v.known ≤
        openCount i (v.ctrl ++ v.out) + v.unopened + v'.known := by
    intro t t' ht ht' hp hc ho hw
    rw [View.unopened_some ht, View.unopened_some ht', View.known_some ht, View.known_some ht',
      Task.unopened_congr hp, hc, ho, hw]
    exact Nat.le_refl _
  cases h with
  | stay => simp
  | gone => exact Nat.le_refl _
  | openIgnored => simp
  | lost => simp
  | windowIgnored => simp
  | connected session target hs hn =>
    simp [View.unopened, View.known, hn, Frame.opens, Task.unopened, Task.new]
    omega
  | connectedPlain target hs hn => simp [View.unopened, View.known, hn, Task.unopened, Task.new]
  | opened c s target hs => cases hs
  | openRefused target reason hs => cases hs
  | pump t m orphan ht hm =>
    have hm' := Task.moves_opens (i := i) hm
    rw [View.unopened_some ht, View.known_some ht]
    simp only [View.unopened, View.known, Option.any_some, Option.isSome_some, if_true,
      openCount_append, openCount_nil]
    omega
  | delivered v' t payload ht he hw hx hv =>
    obtain ⟨t', ht', hp, -, hc, ho⟩ := handed_task hv
    exact hkeep t t' ht ht' (hp.trans (Engine.countPending_phase payload t)) hc ho rfl
  | closed v' t ht he hw hv =>
    obtain ⟨t', ht', hp, -, hc, ho⟩ := handed_task hv
    exact hkeep t t' ht ht' hp hc ho rfl
  | aborted v' t reason ht he hw hv =>
    obtain ⟨t', ht', hp, -, hc, ho⟩ := handed_task hv
    exact hkeep t t' ht ht' hp hc ho rfl
  | credit t f bytes hf ht => exact hkeep t _ ht rfl rfl rfl rfl rfl
  | unblocked t msg ht => exact hkeep t _ ht rfl (Engine.pushIn_phase msg t) rfl rfl rfl
  | joined t t' ht hp ht' =>
    have hu : t'.unopened = false := by
      rcases ht' with rfl | rfl <;> rfl
    rw [View.known_some ht]
    simp only [View.unopened, View.known, Option.any_some, Option.isSome_some, if_true, hu,
      Bool.false_eq_true, if_false, List.nil_append]
    omega
  | pollCtrl f ctrl hc =>
    simp only [View.unopened, View.known, hc, openCount_append, openCount_cons, openCount_nil]
    omega
  | pollOut f out hc =>
    simp only [View.unopened, View.known, hc, openCount_append, openCount_cons, openCount_nil]
    omega

/-- An accept engine makes a stream only for an Open it reads. -/
theorem opens_accept {order : Bool} {i : UInt32} {v v' : View} {inp w : List Frame}
    (h : ViewStep order false i v inp v' w) : v'.known ≤ v.known + openCount i inp := by
  have hsome : ∀ t, v.task = some t → v'.known ≤ v.known + openCount i inp := by
    intro t ht
    rw [View.known_some ht]
    unfold View.known
    split <;> omega
  cases h with
  | stay => simp
  | gone => exact Nat.le_add_right _ _
  | openIgnored => simp
  | lost => simp
  | windowIgnored => simp
  | connected session target hs => cases hs
  | connectedPlain target hs => cases hs
  | opened c s target hs hn => simp [View.known, hn, Frame.opens]
  | openRefused => simp [View.known]
  | pump t m orphan ht => exact hsome t ht
  | delivered v' t payload ht => exact hsome t ht
  | closed v' t ht => exact hsome t ht
  | aborted v' t reason ht => exact hsome t ht
  | credit t f bytes hf ht => exact hsome t ht
  | unblocked t msg ht => exact hsome t ht
  | joined t t' ht => exact hsome t ht
  | pollCtrl => simp [View.known]
  | pollOut => simp [View.known]

/-- The Open of a stream exists once: to be sent, on its way, or taken. -/
def Lane.Opens (i : UInt32) (l : Lane) : Prop :=
  openCount i (l.ab ++ l.a.ctrl ++ l.a.out) + l.a.unopened + l.b.known ≤ l.a.known

variable {order : Bool} {i : UInt32} {l l' : Lane} {inp w : List Frame}

theorem Lane.Opens.stepA (h : l.Opens i) (hs : LaneStepA order i l l' inp w) : l'.Opens i := by
  have ho := opens_initiate hs.step
  unfold Lane.Opens at h ⊢
  rw [hs.ab, hs.b]
  simp only [openCount_append] at h ho ⊢
  omega

theorem Lane.Opens.stepB (h : l.Opens i) (hs : LaneStepB order i l l' inp w) : l'.Opens i := by
  have ho := opens_accept hs.step
  unfold Lane.Opens at h ⊢
  rw [hs.ab] at h
  rw [hs.a]
  simp only [openCount_append] at h ⊢
  omega

end CtAgent.Forward
