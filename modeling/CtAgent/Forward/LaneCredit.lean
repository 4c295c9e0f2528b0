import CtAgent.Forward.Lane

/-! The credit of one stream: in each direction, the sender's credit, the bytes on their way, the
bytes the receiver owes and the credit on its way back stay within the window. -/
namespace CtAgent.Forward
open CtAgent.Lib

namespace View

/-- What the stream may still send. -/
def spend (v : View) : ℕ := (v.task.map Task.spend).getD fcWindow

/-- What the stream got and did not report. -/
def owed (v : View) : ℕ := (v.task.map Task.owed).getD 0

def Credited (v : View) : Prop := ∀ t, v.task = some t → t.credited = true

def Counted (v : View) : Prop := ∀ t, v.task = some t → t.Counted

theorem spend_some {v : View} {t : Task} (h : v.task = some t) : v.spend = t.spend := by
  simp [spend, h]

theorem spend_none {v : View} (h : v.task = none) : v.spend = fcWindow := by
  simp [spend, h]

theorem owed_some {v : View} {t : Task} (h : v.task = some t) : v.owed = t.owed := by
  simp [owed, h]

theorem owed_none {v : View} (h : v.task = none) : v.owed = 0 := by
  simp [owed, h]

end View

section
variable {order initiates : Bool} {i : UInt32} {v v' : View} {inp w : List Frame}

theorem spend_congr {t t' : Task} (hc : t'.credit = t.credit) (hu : t'.up = t.up) : t'.spend = t.spend := by
  rw [Task.spend, Task.spend, hc, hu]

theorem spend_new (id : UInt32) (session : Bool) (phase : Phase) :
    (Task.new id true session phase).spend = fcWindow := by
  simp [Task.spend, Task.new, Up.hand]

theorem owed_new (id : UInt32) (credited session : Bool) (phase : Phase) :
    (Task.new id credited session phase).owed = 0 := by
  simp [Task.owed, Task.new, Down.inWriting]

theorem pushIn_keeps_credit (msg : StreamIn) (t : Task) :
    (Engine.pushIn msg t).credit = t.credit ∧ (Engine.pushIn msg t).up = t.up := by
  unfold Engine.pushIn
  split <;> exact ⟨rfl, rfl⟩

theorem countPending_keeps_credit (payload : Bytes) (t : Task) :
    (Engine.countPending payload t).credit = t.credit ∧ (Engine.countPending payload t).up = t.up := by
  unfold Engine.countPending
  split <;> exact ⟨rfl, rfl⟩

/-- Handing a message over costs the sender's half nothing. -/
theorem spend_handed {t : Task} {msg : StreamIn} (h : Handed v t msg v') :
    v'.spend = t.spend ∧ v'.ctrl = v.ctrl ∧ v'.out = v.out := by
  cases h with
  | now => exact ⟨spend_congr (pushIn_keeps_credit msg t).1 (pushIn_keeps_credit msg t).2, rfl, rfl⟩
  | later => exact ⟨rfl, rfl, rfl⟩

theorem creditLen_windowFor {f : Frame} {bytes : UInt32} (hf : f.windowFor i = some bytes) :
    creditLen i [f] = bytes.toNat := by
  simp [Frame.creditFor, hf]

/-- A sender with credit: it queues no more than its credit, which grows by what it is granted. -/
theorem spend_step (h : ViewStep order initiates i v inp v' w) (hcount : v.Counted) (hc : v'.Credited)
    (hc' : v.Credited) :
    v'.spend + dataLen i (v'.ctrl ++ v'.out) + dataLen i w ≤
      v.spend + dataLen i (v.ctrl ++ v.out) + creditLen i inp := by
  -- a step that keeps what the task may send, and the queues
  have hkeep : v'.spend = v.spend → v'.ctrl = v.ctrl → v'.out = v.out → w = [] →
      v'.spend + dataLen i (v'.ctrl ++ v'.out) + dataLen i w ≤
        v.spend + dataLen i (v.ctrl ++ v.out) + creditLen i inp := by
    intro h1 h2 h3 h4
    rw [h1, h2, h3, h4, dataLen_nil]
    omega
  cases h with
  | stay => exact hkeep rfl rfl rfl rfl
  | gone => exact hkeep rfl rfl rfl rfl
  | openIgnored => exact hkeep rfl rfl rfl rfl
  | lost => exact hkeep rfl rfl rfl rfl
  | windowIgnored => exact hkeep rfl rfl rfl rfl
  | connected session target hs hn =>
    have hd : dataLen i [Frame.open i target] = 0 := rfl
    rw [View.spend_none hn, View.spend_some rfl, spend_new]
    simp only [dataLen_append, hd, dataLen_nil, creditLen_nil]
    omega
  | connectedPlain target hs hn =>
    have hb := hc _ rfl
    cases hb
  | opened c session target hs hn =>
    have hb : c = true := hc _ rfl
    subst hb
    refine hkeep ?_ rfl rfl rfl
    rw [View.spend_none hn, View.spend_some rfl, spend_new]
  | openRefused target reason hs hn =>
    have hd : dataLen i [Frame.close i (some reason)] = 0 := rfl
    have hsp : ({ v with ctrl := v.ctrl ++ [.close i (some reason)] } : View).spend = v.spend := rfl
    rw [hsp]
    simp only [dataLen_append, hd, dataLen_nil]
    omega
  | pump t m orphan ht hm =>
    have hsp := Task.spend_moves (i := i) (hcount t ht) (hc' t ht) hm
    rw [View.spend_some ht, View.spend_some rfl]
    simp only [dataLen_append, dataLen_nil, creditLen_nil]
    omega
  | delivered v' t payload ht he hw hx hv =>
    obtain ⟨h1, h2, h3⟩ := spend_handed hv
    refine hkeep ?_ h2 h3 rfl
    rw [h1, View.spend_some ht]
    exact spend_congr (countPending_keeps_credit payload t).1 (countPending_keeps_credit payload t).2
  | closed v' t ht he hw hv =>
    obtain ⟨h1, h2, h3⟩ := spend_handed hv
    exact hkeep (by rw [h1, View.spend_some ht]) h2 h3 rfl
  | aborted v' t reason ht he hw hv =>
    obtain ⟨h1, h2, h3⟩ := spend_handed hv
    refine hkeep ?_ h2 h3 rfl
    rw [h1, View.spend_some ht]
    exact spend_congr rfl rfl
  | credit t f bytes hf ht =>
    rw [View.spend_some ht, View.spend_some rfl, creditLen_windowFor hf]
    simp only [Task.spend, Engine.addCredit, Semaphore.total_addPermits, dataLen_nil]
    omega
  | unblocked t msg ht =>
    refine hkeep ?_ rfl rfl rfl
    rw [View.spend_some ht, View.spend_some rfl]
    exact spend_congr (pushIn_keeps_credit msg t).1 (pushIn_keeps_credit msg t).2
  | joined t t' ht hp ht' =>
    refine hkeep ?_ rfl rfl rfl
    rw [View.spend_some ht, View.spend_some rfl]
    rcases ht' with rfl | rfl <;> exact spend_congr rfl rfl
  | pollCtrl f ctrl hq =>
    have hsp : ({ v with ctrl := ctrl } : View).spend = v.spend := rfl
    rw [hsp, hq]
    simp only [dataLen_append, dataLen_cons, dataLen_nil, creditLen_nil]
    omega
  | pollOut f out hq =>
    have hsp : ({ v with out := out } : View).spend = v.spend := rfl
    rw [hsp, hq]
    simp only [dataLen_append, dataLen_cons, dataLen_nil, creditLen_nil]
    omega

theorem owed_congr {t t' : Task} (hc : t'.credited = t.credited) (hr : t'.unreported = t.unreported)
    (hp : t'.pending = t.pending) (hd : t'.down = t.down) : t'.owed = t.owed := by
  rw [Task.owed, Task.owed, hc, hr, hp, hd]

theorem owed_pushIn (msg : StreamIn) (t : Task) : (Engine.pushIn msg t).owed = t.owed := by
  unfold Engine.pushIn
  split
  · rfl
  · exact owed_congr rfl rfl rfl rfl

theorem owed_countPending_le (payload : Bytes) (t : Task) :
    (Engine.countPending payload t).owed ≤ t.owed + payload.length := by
  unfold Engine.countPending
  split
  · rename_i hc
    simp only [Task.owed, hc, if_true]
    omega
  · exact Nat.le_add_right _ _

theorem owed_handed {t : Task} {msg : StreamIn} (h : Handed v t msg v') :
    v'.owed = t.owed ∧ v'.ctrl = v.ctrl ∧ v'.out = v.out := by
  cases h with
  | now => exact ⟨owed_pushIn msg t, rfl, rfl⟩
  | later => exact ⟨rfl, rfl, rfl⟩

/-- A receiver: it reports no more than it got. -/
theorem owed_step (h : ViewStep order initiates i v inp v' w) (hcount : v.Counted) (hi : i ≠ controlId)
    (hid : ∀ t, v.task = some t → t.id = i) :
    v'.owed + creditLen i (v'.ctrl ++ v'.out) + creditLen i w ≤
      v.owed + creditLen i (v.ctrl ++ v.out) + dataLen i inp := by
  have hkeep : v'.owed ≤ v.owed + dataLen i inp → v'.ctrl = v.ctrl → v'.out = v.out → w = [] →
      v'.owed + creditLen i (v'.ctrl ++ v'.out) + creditLen i w ≤
        v.owed + creditLen i (v.ctrl ++ v.out) + dataLen i inp := by
    intro h1 h2 h3 h4
    rw [h2, h3, h4, creditLen_nil]
    omega
  have hsame : v'.owed = v.owed → v'.ctrl = v.ctrl → v'.out = v.out → w = [] →
      v'.owed + creditLen i (v'.ctrl ++ v'.out) + creditLen i w ≤
        v.owed + creditLen i (v.ctrl ++ v.out) + dataLen i inp :=
    fun h1 => hkeep (by rw [h1]; exact Nat.le_add_right _ _)
  cases h with
  | stay => exact hsame rfl rfl rfl rfl
  | gone => exact hsame rfl rfl rfl rfl
  | openIgnored => exact hsame rfl rfl rfl rfl
  | lost => exact hsame rfl rfl rfl rfl
  | windowIgnored => exact hsame rfl rfl rfl rfl
  | connected session target hs hn =>
    have hd : creditLen i [Frame.open i target] = 0 := rfl
    rw [View.owed_none hn, View.owed_some rfl, owed_new]
    simp only [creditLen_append, hd, creditLen_nil, dataLen_nil]
    omega
  | connectedPlain target hs hn =>
    exact hsame (by rw [View.owed_none hn, View.owed_some rfl, owed_new]) rfl rfl rfl
  | opened c session target hs hn =>
    exact hsame (by rw [View.owed_none hn, View.owed_some rfl, owed_new]) rfl rfl rfl
  | openRefused target reason hs hn =>
    have hd : creditLen i [Frame.close i (some reason)] = 0 := rfl
    have how : ({ v with ctrl := v.ctrl ++ [.close i (some reason)] } : View).owed = v.owed := rfl
    rw [how]
    simp only [creditLen_append, hd, creditLen_nil]
    omega
  | pump t m orphan ht hm =>
    have how := Task.owed_moves (i := i) (hcount t ht) (hid t ht ▸ hi) hm
    rw [View.owed_some ht, View.owed_some rfl]
    simp only [creditLen_append, creditLen_nil, dataLen_nil]
    omega
  | delivered v' t payload ht he hw hx hv =>
    obtain ⟨h1, h2, h3⟩ := owed_handed hv
    have hle := owed_countPending_le payload t
    refine hkeep ?_ h2 h3 rfl
    rw [h1, View.owed_some ht]
    simpa [Frame.dataFor, hi] using hle
  | closed v' t ht he hw hv =>
    obtain ⟨h1, h2, h3⟩ := owed_handed hv
    exact hsame (by rw [h1, View.owed_some ht]) h2 h3 rfl
  | aborted v' t reason ht he hw hv =>
    obtain ⟨h1, h2, h3⟩ := owed_handed hv
    refine hsame ?_ h2 h3 rfl
    rw [h1, View.owed_some ht]
    exact owed_congr rfl rfl rfl rfl
  | credit t f bytes hf ht =>
    exact hsame (by rw [View.owed_some ht, View.owed_some rfl]; exact owed_congr rfl rfl rfl rfl) rfl rfl rfl
  | unblocked t msg ht =>
    exact hsame (by rw [View.owed_some ht, View.owed_some rfl]; exact owed_pushIn msg t) rfl rfl rfl
  | joined t t' ht hp ht' =>
    refine hsame ?_ rfl rfl rfl
    rw [View.owed_some ht, View.owed_some rfl]
    rcases ht' with rfl | rfl <;> exact owed_congr rfl rfl rfl rfl
  | pollCtrl f ctrl hq =>
    have how : ({ v with ctrl := ctrl } : View).owed = v.owed := rfl
    rw [how, hq]
    simp only [creditLen_append, creditLen_cons, creditLen_nil, dataLen_nil]
    omega
  | pollOut f out hq =>
    have how : ({ v with out := out } : View).owed = v.owed := rfl
    rw [how, hq]
    simp only [creditLen_append, creditLen_cons, creditLen_nil, dataLen_nil]
    omega

/-- A stream keeps its task, and the task its id and whether it is credited. -/
theorem task_step (h : ViewStep order initiates i v inp v' w) {t : Task} (ht : v.task = some t) :
    ∃ t', v'.task = some t' ∧ t'.credited = t.credited ∧ t'.id = t.id := by
  cases h with
  | connected session target hs hn =>
    rw [ht] at hn
    cases hn
  | connectedPlain target hs hn =>
    rw [ht] at hn
    cases hn
  | opened c session target hs hn =>
    rw [ht] at hn
    cases hn
  | pump u m orphan hu hm =>
    rw [ht, Option.some.injEq] at hu
    subst hu
    exact ⟨m.task, rfl, Task.moves_credited hm, Task.moves_id hm⟩
  | delivered v' u payload hu he hw hx hv =>
    rw [ht, Option.some.injEq] at hu
    subst hu
    cases hv with
    | now =>
      refine ⟨_, rfl, ?_, ?_⟩
      · rw [Engine.pushIn_credited, Engine.countPending_credited]
      · rw [Engine.pushIn_id, Engine.countPending_id]
    | later => exact ⟨_, rfl, Engine.countPending_credited _ _, Engine.countPending_id _ _⟩
  | closed v' u hu he hw hv =>
    rw [ht, Option.some.injEq] at hu
    subst hu
    cases hv with
    | now => exact ⟨_, rfl, Engine.pushIn_credited _ _, Engine.pushIn_id _ _⟩
    | later => exact ⟨_, rfl, rfl, rfl⟩
  | aborted v' u reason hu he hw hv =>
    rw [ht, Option.some.injEq] at hu
    subst hu
    cases hv with
    | now => exact ⟨_, rfl, Engine.pushIn_credited _ _, Engine.pushIn_id _ _⟩
    | later => exact ⟨_, rfl, rfl, rfl⟩
  | credit u f bytes hf hu =>
    rw [ht, Option.some.injEq] at hu
    subst hu
    exact ⟨_, rfl, rfl, rfl⟩
  | unblocked u msg hu =>
    rw [ht, Option.some.injEq] at hu
    subst hu
    exact ⟨_, rfl, Engine.pushIn_credited _ _, Engine.pushIn_id _ _⟩
  | joined u u' hu hp hu' =>
    rw [ht, Option.some.injEq] at hu
    subst hu
    rcases hu' with rfl | rfl <;> exact ⟨_, rfl, rfl, rfl⟩
  | _ => exact ⟨t, ht, rfl, rfl⟩

theorem credited_before (h : ViewStep order initiates i v inp v' w) (hc : v'.Credited) : v.Credited := by
  intro t ht
  obtain ⟨t', ht', he, -⟩ := task_step h ht
  rw [← he]
  exact hc t' ht'

/-- One direction of a stream whose sender runs with credit. -/
def CreditFits (i : UInt32) (snd rcv : View) (wire back : List Frame) : Prop :=
  snd.Credited → snd.spend + dataLen i (snd.ctrl ++ snd.out) + dataLen i wire + rcv.owed +
    creditLen i (rcv.ctrl ++ rcv.out) + creditLen i back ≤ fcWindow

variable {snd rcv : View} {wire wire' back back' : List Frame}

theorem CreditFits.sends (h : CreditFits i v rcv wire back) (hs : ViewStep order initiates i v inp v' w)
    (hcount : v.Counted) (hb : back = inp ++ back') : CreditFits i v' rcv (wire ++ w) back' := by
  intro hc
  have hc' := credited_before hs hc
  have hstep := spend_step hs hcount hc hc'
  have hle := h hc'
  simp only [hb, dataLen_append, creditLen_append] at hle hstep ⊢
  omega

theorem CreditFits.receives (h : CreditFits i snd v wire back) (hs : ViewStep order initiates i v inp v' w)
    (hcount : v.Counted) (hi : i ≠ controlId) (hid : ∀ t, v.task = some t → t.id = i)
    (hw : wire = inp ++ wire') : CreditFits i snd v' wire' (back ++ w) := by
  intro hc
  have hstep := owed_step hs hcount hi hid
  have hle := h hc
  simp only [hw, dataLen_append, creditLen_append] at hle hstep ⊢
  omega

/-- Data on its way fits what the receiver counts. -/
theorem CreditFits.pending_le (h : CreditFits i snd rcv wire back) (hc : snd.Credited) (hi : i ≠ controlId)
    {t : Task} (ht : rcv.task = some t) (htc : t.credited = true) {payload : Bytes}
    (hw : wire = .data i payload :: wire') : t.pending + payload.length ≤ fcWindow := by
  have hle := h hc
  have howed : t.pending ≤ t.owed := by
    simp only [Task.owed, htc, if_true]
    omega
  have hdata : dataLen i wire = payload.length + dataLen i wire' := by
    rw [hw, dataLen_cons]
    simp [Frame.dataFor, hi]
  rw [View.owed_some ht, hdata] at hle
  omega

/-- Credit on its way back fits the sender's window. -/
theorem CreditFits.free_le (h : CreditFits i snd rcv wire back) (hc : snd.Credited) {t : Task}
    (ht : snd.task = some t) {f : Frame} {bytes : UInt32} (hf : f.windowFor i = some bytes)
    (hb : back = f :: back') : t.credit.free + bytes.toNat ≤ fcWindow := by
  have hle := h hc
  have hfree : t.credit.free ≤ t.spend := by
    simp only [Task.spend, Semaphore.total]
    omega
  have hcredit : creditLen i back = bytes.toNat + creditLen i back' := by
    rw [hb, creditLen_cons, Frame.creditFor, hf]
    rfl
  rw [View.spend_some ht, hcredit] at hle
  omega

end

end CtAgent.Forward
