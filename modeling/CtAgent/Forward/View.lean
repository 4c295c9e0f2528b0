import CtAgent.Forward.EngineTables

/-! One stream as an engine sees it, and what a step of the engine can do to it. -/
namespace CtAgent.Forward
open CtAgent.Lib

/-- The frames that concern stream `i`; FC_ON announces a stream and is none of its own frames. -/
def Frame.about (i : UInt32) : Frame → Bool
  | .open id _ => decide (id = i)
  | .close id _ => decide (id = i)
  | .data id payload =>
    if id = controlId then
      match parseControl payload with
      | some (.window k _) => decide (k = i)
      | _ => false
    else decide (id = i)

/-- The stream a frame belongs to, if it is no control message. -/
def Frame.streamOf : Frame → Option UInt32
  | .open id _ => some id
  | .close id _ => some id
  | .data id _ => if id = controlId then none else some id

/-- The credit a WINDOW message grants stream `i`. -/
def Frame.windowFor (i : UInt32) : Frame → Option UInt32
  | .data id payload =>
    if id = controlId then
      match parseControl payload with
      | some (.window k bytes) => if k = i then some bytes else none
      | _ => none
    else none
  | _ => none

def Frame.opens (i : UInt32) : Frame → Bool
  | .open id _ => decide (id = i)
  | _ => false

/-- The frame would overtake the Open of its own stream. -/
def Frame.overtakes (ctrl : List Frame) (f : Frame) : Bool :=
  f.streamOf.any (fun id => ctrl.any (Frame.opens id))

/-- A stream at one engine: its task, whether the engine still has its entry, the message the engine
waits to hand over, and its frames in the two queues. -/
structure View where
  task : Option Task
  entry : Bool
  wait : List StreamIn
  ctrl : List Frame
  out : List Frame

namespace Engine

def stream (i : UInt32) (s : Engine) : Option Task := s.tasks.find? (fun t => t.id = i)

def waitOf (i : UInt32) (s : Engine) : List StreamIn :=
  match s.blocked with
  | some b => if (s.tasks[b.1]?).any (fun t => t.id = i) then [b.2] else []
  | none => []

/-- An engine that ended has no entries any more. -/
def view (i : UInt32) (s : Engine) : View where
  task := s.stream i
  entry := decide (i ∈ s.entries) && s.ended.isNone
  wait := s.waitOf i
  ctrl := s.ctrl.filter (Frame.about i)
  out := s.out.filter (Frame.about i)

end Engine

/-- A message is handed to the task, or waits for room in its queue. -/
inductive Handed (v : View) (t : Task) (msg : StreamIn) : View → Prop
  | now : Handed v t msg { v with task := some (Engine.pushIn msg t) }
  | later (hc : t.credited = false) (ha : t.ended = false) :
      Handed v t msg { v with task := some t, wait := [msg] }

/-- The steps of one stream at one engine: the view before, the frame of the stream it reads, the
view behind it, the frame it writes. In `order` no frame overtakes the Open of its stream; only an engine that
`initiates` makes streams of its own accord. -/
inductive ViewStep (order initiates : Bool) (i : UInt32) : View → List Frame → View → List Frame → Prop
  | stay (v : View) : ViewStep order initiates i v [] v []
  | gone (v : View) (inp : List Frame) : ViewStep order initiates i v inp { v with entry := false } []
  | openIgnored (v : View) (target : String) (hs : initiates = true) :
    ViewStep order initiates i v [.open i target] v []
  | lost (v : View) (f : Frame) (he : v.entry = false) : ViewStep order initiates i v [f] v []
  | windowIgnored (v : View) (t : Task) (f : Frame) (bytes : UInt32) (hf : f.windowFor i = some bytes)
      (ht : v.task = some t) (hc : t.credited = false) : ViewStep order initiates i v [f] v []
  | connected (v : View) (session : Bool) (target : String) (hs : initiates = true) (hn : v.task = none) :
      ViewStep order initiates i v []
        { v with task := some (.new i true session .pumping), entry := true,
                 ctrl := v.ctrl ++ [.open i target] } []
  | connectedPlain (v : View) (target : String) (hs : initiates = true) (hn : v.task = none) :
      ViewStep order initiates i v []
        { v with task := some (.new i false false (.spawned target)), entry := true } []
  | opened (v : View) (credited session : Bool) (target : String) (hs : initiates = false)
      (hn : v.task = none) :
      ViewStep order initiates i v [.open i target]
        { v with task := some (.new i credited session .dialing), entry := true } []
  | openRefused (v : View) (target reason : String) (hs : initiates = false) (hn : v.task = none) :
      ViewStep order initiates i v [.open i target] { v with ctrl := v.ctrl ++ [.close i (some reason)] } []
  | pump (v : View) (t : Task) (m : PumpMove) (orphan : Bool) (ht : v.task = some t)
      (hm : t.Moves orphan m) :
      ViewStep order initiates i v [] { v with task := some m.task, out := v.out ++ m.frames } []
  | delivered (v v' : View) (t : Task) (payload : Bytes) (ht : v.task = some t) (he : v.entry = true)
      (hw : v.wait = []) (hx : Engine.exceedsCredit payload t = false)
      (hv : Handed v (Engine.countPending payload t) (.data payload) v') :
      ViewStep order initiates i v [.data i payload] v' []
  | closed (v v' : View) (t : Task) (ht : v.task = some t) (he : v.entry = true) (hw : v.wait = [])
      (hv : Handed v t .closed v') : ViewStep order initiates i v [.close i none] v' []
  | aborted (v v' : View) (t : Task) (reason : String) (ht : v.task = some t) (he : v.entry = true)
      (hw : v.wait = []) (hv : Handed { v with entry := false } (Engine.closeCredit t) .aborted v') :
      ViewStep order initiates i v [.close i (some reason)] v' []
  | credit (v : View) (t : Task) (f : Frame) (bytes : UInt32) (hf : f.windowFor i = some bytes)
    (ht : v.task = some t) (he : v.entry = true)
      (hc : t.credited = true) (hb : bytes.toNat ≤ fcWindow - t.credit.free) :
      ViewStep order initiates i v [f] { v with task := some (Engine.addCredit bytes.toNat t) } []
  | unblocked (v : View) (t : Task) (msg : StreamIn) (ht : v.task = some t) (hw : v.wait = [msg]) :
      ViewStep order initiates i v [] { v with task := some (Engine.pushIn msg t), wait := [] } []
  | joined (v : View) (t t' : Task) (ht : v.task = some t) (hp : t.phase = .finished)
      (ht' : t' = Engine.markJoined t ∨ t' = Engine.closeCredit (Engine.markJoined t)) :
      ViewStep order initiates i v [] { v with task := some t', entry := false } []
  | pollCtrl (v : View) (f : Frame) (ctrl : List Frame) (hc : v.ctrl = f :: ctrl) :
      ViewStep order initiates i v [] { v with ctrl := ctrl } [f]
  | pollOut (v : View) (f : Frame) (out : List Frame) (hc : v.out = f :: out)
      (hg : order = true → f.overtakes v.ctrl = false) :
      ViewStep order initiates i v [] { v with out := out } [f]

namespace Engine
variable {cfg : EngineConfig} {s s' : Engine} {t : Task} {i id : UInt32} {tid : ℕ} {order initiates : Bool}

/-- The task under a number is the stream of its id, when no two tasks share one. -/
theorem find?_of_getElem? {tasks : List Task} (hn : (tasks.map Task.id).Nodup)
    (ht : tasks[tid]? = some t) : tasks.find? (fun u => u.id = t.id) = some t := by
  have hmem : t ∈ tasks := List.mem_of_getElem? ht
  cases hf : tasks.find? (fun u => u.id = t.id) with
  | none =>
    have h := List.find?_eq_none.mp hf t hmem
    simp at h
  | some u =>
    have hu : u.id = t.id := by simpa using List.find?_some hf
    rw [List.inj_on_of_nodup_map hn (List.mem_of_find?_eq_some hf) hmem hu]

theorem find?_modify {tasks : List Task} (hn : (tasks.map Task.id).Nodup) (ht : tasks[tid]? = some t)
    {f : Task → Task} (hf : (f t).id = t.id) (i : UInt32) :
    (tasks.modify tid f).find? (fun u => u.id = i) =
      if t.id = i then some (f t) else tasks.find? (fun u => u.id = i) := by
  induction tasks generalizing tid with
  | nil => simp at ht
  | cons u us ih =>
    rw [List.map_cons, List.nodup_cons] at hn
    cases tid with
    | zero =>
      simp only [List.getElem?_cons_zero, Option.some.injEq] at ht
      subst ht
      rw [List.modify_zero_cons, List.find?_cons, List.find?_cons, hf]
      by_cases hi : u.id = i
      · simp [hi]
      · simp [hi]
    | succ k =>
      rw [List.getElem?_cons_succ] at ht
      rw [List.modify_succ_cons, List.find?_cons, List.find?_cons]
      by_cases hi : u.id = i
      · have hne : t.id ≠ i := by
          intro he
          exact hn.1 (hi ▸ he ▸ List.mem_map_of_mem (List.mem_of_getElem? ht))
        simp [hi, hne]
      · simp [hi, ih hn.2 ht]

theorem view_modifyTask (hn : (s.tasks.map Task.id).Nodup) (ht : s.tasks[tid]? = some t)
    {f : Task → Task} (hf : (f t).id = t.id) (i : UInt32) :
    (s.modifyTask tid f).view i =
      if t.id = i then { s.view i with task := some (f t) } else s.view i := by
  have hs : (s.modifyTask tid f).stream i = if t.id = i then some (f t) else s.stream i :=
    find?_modify hn ht hf i
  have hany : ∀ k : ℕ, ((s.modifyTask tid f).tasks[k]?).any (fun u : Task => u.id = i) =
      (s.tasks[k]?).any (fun u : Task => u.id = i) := by
    intro k
    rw [getElem?_modifyTask]
    cases hk : s.tasks[k]? with
    | none => rfl
    | some u =>
      simp only [Option.map_some, Option.any_some]
      split
      · rename_i he
        rw [← he, ht, Option.some.injEq] at hk
        rw [← hk, hf]
      · rfl
  have hw : (s.modifyTask tid f).waitOf i = s.waitOf i := by
    unfold waitOf
    simp only [hany]
    rfl
  have hview : (s.modifyTask tid f).view i =
      { s.view i with task := (s.modifyTask tid f).stream i, wait := (s.modifyTask tid f).waitOf i } := rfl
  rw [hview, hw, hs]
  split <;> rfl

theorem view_endWith (why : EndReason) (s : Engine) (i : UInt32) :
    (s.endWith why).view i = { s.view i with entry := false } := by
  simp only [view, endWith, Option.isNone_some, Bool.and_false]
  rfl

theorem view_ctrl (f : Frame) (s : Engine) (i : UInt32) :
    ({ s with ctrl := s.ctrl ++ [f] } : Engine).view i =
      { s.view i with ctrl := (s.view i).ctrl ++ [f].filter (Frame.about i) } := by
  simp only [view, List.filter_append]
  rfl

theorem nodup_modifyTask (hn : (s.tasks.map Task.id).Nodup) {f : Task → Task}
    (hf : ∀ u, (f u).id = u.id) (tid : ℕ) : ((s.modifyTask tid f).tasks.map Task.id).Nodup := by
  rw [map_modifyTask hf]
  exact hn

theorem waitOf_none (hb : s.blocked = none) (i : UInt32) : s.waitOf i = [] := by
  unfold waitOf
  rw [hb]

/-- Handing a message to a task changes only the view of its stream. -/
theorem view_notify (hn : (s.tasks.map Task.id).Nodup) (hb : s.blocked = none)
    (ht : s.tasks[tid]? = some t) (msg : StreamIn) (i : UInt32) :
    (t.id = i → Handed (s.view i) t msg ((s.notify tid msg).view i)) ∧
    (t.id ≠ i → (s.notify tid msg).view i = s.view i) := by
  by_cases hr : hasRoom t = true
  · have hs : s.notify tid msg = s.modifyTask tid (pushIn msg) := by
      unfold notify
      rw [if_pos (by simpa [ht] using hr)]
    rw [hs, view_modifyTask hn ht (pushIn_id msg t) i]
    refine ⟨fun hi => ?_, fun hi => if_neg hi⟩
    rw [if_pos hi]
    exact .now
  · have hs : s.notify tid msg = { s with blocked := some (tid, msg) } := by
      unfold notify
      rw [if_neg (by simpa [ht] using hr)]
    have hroom : t.credited = false ∧ t.ended = false := by
      cases hc : t.credited
      · cases he : t.ended
        · exact ⟨rfl, rfl⟩
        · simp [hasRoom, he] at hr
      · simp [hasRoom, hc] at hr
    have hview : (s.notify tid msg).view i = { s.view i with wait := if t.id = i then [msg] else [] } := by
      simp only [hs, view, waitOf, ht, Option.any_some, decide_eq_true_eq]
      rfl
    rw [hview]
    refine ⟨fun hi => ?_, fun hi => ?_⟩
    · have htask : s.view i = { s.view i with task := some t } := by
        have h : (s.view i).task = some t := by
          rw [← hi]
          exact find?_of_getElem? hn ht
        rw [← h]
      rw [if_pos hi, htask]
      exact .later hroom.1 hroom.2
    · rw [if_neg hi, ← waitOf_none hb i]
      rfl

theorem Handed.of_task {v v' : View} {u : Option Task} {msg : StreamIn}
    (h : Handed { v with task := u } t msg v') : Handed v t msg v' := by
  cases h with
  | now => exact .now
  | later hc ha => exact .later hc ha

/-- Data that fits the credit changes only the view of its stream. -/
theorem view_deliver (hn : (s.tasks.map Task.id).Nodup) (hb : s.blocked = none)
    (ht : s.tasks[tid]? = some t) {payload : Bytes} (hx : exceedsCredit payload t = false) (i : UInt32) :
    (s.deliver tid payload).1 = true ∧
    (t.id = i →
      Handed (s.view i) (countPending payload t) (.data payload) ((s.deliver tid payload).2.view i)) ∧
    (t.id ≠ i → (s.deliver tid payload).2.view i = s.view i) := by
  unfold deliver
  rw [if_neg (by simp [ht, hx])]
  refine ⟨rfl, ?_⟩
  have hn' := nodup_modifyTask hn (countPending_id payload) tid
  have ht' : (s.modifyTask tid (countPending payload)).tasks[tid]? = some (countPending payload t) := by
    simp [getElem?_modifyTask, ht]
  have h := view_notify hn' hb ht' (.data payload) i
  rw [countPending_id, view_modifyTask hn ht (countPending_id payload t) i] at h
  refine ⟨fun hi => ?_, fun hi => ?_⟩
  · have hh := h.1 hi
    rw [if_pos hi] at hh
    exact Handed.of_task hh
  · have hh := h.2 hi
    rw [if_neg hi] at hh
    exact hh

theorem view_erase (id : UInt32) (s : Engine) (i : UInt32) :
    ({ s with entries := s.entries.erase id } : Engine).view i =
      if id = i then { s.view i with entry := false } else s.view i := by
  by_cases hi : id = i
  · subst hi
    simp only [view, if_true, AList.mem_erase, ne_eq, not_true_eq_false, false_and, decide_false,
      Bool.false_and]
    rfl
  · simp only [view, if_neg hi, AList.mem_erase, ne_eq, Ne.symm hi, not_false_eq_true, true_and]
    rfl

theorem view_removeEntry (hn : (s.tasks.map Task.id).Nodup) (ht : s.tasks[tid]? = some t)
    (hid : t.id = id) (i : UInt32) :
    (s.removeEntry id tid).view i =
      if id = i then { s.view i with entry := false, task := some (closeCredit t) } else s.view i := by
  have h : (s.removeEntry id tid).view i =
      if t.id = i then { ({ s with entries := s.entries.erase id } : Engine).view i with
        task := some (closeCredit t) } else ({ s with entries := s.entries.erase id } : Engine).view i :=
    view_modifyTask (s := { s with entries := s.entries.erase id }) (f := closeCredit) hn ht rfl i
  rw [h, view_erase, hid]
  split <;> rfl

theorem Tables.entry_task (h : s.Tables cfg) (he : s.entries.lookup id = some tid) :
    ∃ t, s.tasks[tid]? = some t ∧ t.id = id := by
  obtain ⟨t, ht, hid, -⟩ := h.runs id tid (h.entry_runs id tid he)
  exact ⟨t, ht, hid⟩

theorem view_entry_false (he : s.entries.lookup id = none) : (s.view id).entry = false := by
  simp [view, AList.lookup_eq_none.mp he]

theorem view_entry_true (he : s.entries.lookup id = some tid) (hend : s.ended = none) :
    (s.view id).entry = true := by
  have hm : id ∈ s.entries := by
    rw [← AList.lookup_isSome, he]
    rfl
  simp [view, hm, hend]

theorem view_task (hn : (s.tasks.map Task.id).Nodup) (ht : s.tasks[tid]? = some t) (hid : t.id = i) :
    (s.view i).task = some t := by
  rw [← hid]
  exact find?_of_getElem? hn ht

/-- Taking an entry out concerns only its own stream. -/
theorem view_abortEntry (h : s.Tables cfg) (hn : (s.tasks.map Task.id).Nodup) (hb : s.blocked = none)
    (id i : UInt32) :
    (id ≠ i → (s.abortEntry id).view i = s.view i) ∧
    (id = i → (s.entries.lookup id = none ∧ s.abortEntry id = s) ∨
      ∃ t, (s.view i).task = some t ∧ s.entries.lookup id ≠ none ∧
        Handed { s.view i with entry := false } (closeCredit t) .aborted ((s.abortEntry id).view i)) := by
  unfold abortEntry
  cases he : s.entries.lookup id with
  | none => exact ⟨fun _ => rfl, fun _ => .inl ⟨rfl, rfl⟩⟩
  | some tid =>
    obtain ⟨t, ht, hid⟩ := h.entry_task he
    have hn' : ((s.removeEntry id tid).tasks.map Task.id).Nodup :=
      nodup_modifyTask (s := { s with entries := s.entries.erase id }) (f := closeCredit) hn
        (fun _ => rfl) tid
    have ht' : (s.removeEntry id tid).tasks[tid]? = some (closeCredit t) := by
      simp [removeEntry, getElem?_modifyTask, ht]
    have hh := view_notify hn' hb ht' .aborted i
    rw [view_removeEntry hn ht hid] at hh
    refine ⟨fun hi => ?_, fun hi => .inr ⟨t, view_task hn ht (hid.trans hi), by simp, ?_⟩⟩
    · rw [if_neg hi] at hh
      exact hh.2 (hid ▸ hi)
    · rw [if_pos hi] at hh
      exact Handed.of_task (hh.1 (hid.trans hi))

theorem about_swindow (b : UInt32) (i : UInt32) : (swindowFrame b).about i = false := by
  have h := parseControl_swindow b
  simp only [swindowFrame, Frame.payload] at h
  simp [Frame.about, swindowFrame, h]

theorem about_window (k b : UInt32) (i : UInt32) : (windowFrame k b).about i = decide (k = i) := by
  have h := parseControl_window k b
  simp only [windowFrame, Frame.payload] at h
  simp [Frame.about, windowFrame, h]

theorem about_fcOn (k : UInt32) (i : UInt32) : (fcOnFrame k).about i = false := by
  have h := parseControl_fcOn k
  simp only [fcOnFrame, Frame.payload] at h
  simp [Frame.about, fcOnFrame, h]

theorem about_hello (w : UInt32) (i : UInt32) : (helloFrame w).about i = false := by
  have h := parseControl_hello w
  simp only [helloFrame, Frame.payload] at h
  simp only [Frame.about, helloFrame, if_true, h]

theorem flush_frame {r : SessionRecv} {f : Frame} (h : r.flush.1 = some f) :
    f = swindowFrame (UInt32.ofNat r.unacked) ∧ 0 < r.unacked := by
  simp only [SessionRecv.flush] at h
  split at h
  · rename_i hu
    cases h
    exact ⟨rfl, hu⟩
  · cases h

theorem received_frame {r : SessionRecv} {n : ℕ} {f : Frame} (h : (r.received n).1 = some f) :
    f = swindowFrame (UInt32.ofNat (r.unacked + n)) := by
  unfold SessionRecv.received at h
  split at h
  · cases h
  · dsimp only at h
    split at h
    · exact (flush_frame h).1
    · cases h

/-- An acknowledgement goes to no stream; without room for it the session ends. -/
theorem view_sendAck (ack : Option Frame × SessionRecv) (hend : s.ended = none)
    (hf : ∀ f, ack.1 = some f → f.about i = false) :
    ((s.sendAck ack).ended.isSome = true ∧ (s.sendAck ack).view i = { s.view i with entry := false }) ∨
    (s.sendAck ack = { s with recv := ack.2, ctrl := (s.sendAck ack).ctrl } ∧
      (s.sendAck ack).view i = s.view i) := by
  unfold sendAck
  split
  · rename_i f hf'
    have hend' : ({ s with recv := ack.2 } : Engine).ended = none := hend
    rcases ctrlSend_cases f hend' with hc | hc
    · left
      rw [hc, view_endWith]
      exact ⟨rfl, rfl⟩
    · right
      rw [hc, view_ctrl]
      refine ⟨rfl, ?_⟩
      simp only [List.filter_singleton, hf f hf', cond_false, List.append_nil]
      rfl
  · exact .inr ⟨rfl, rfl⟩

theorem about_ne {f : Frame} (hid : f.streamOf = some id) : f.about i = decide (id = i) := by
  cases f with
  | «open» k target =>
    cases hid
    rfl
  | close k reason =>
    cases hid
    rfl
  | data k payload =>
    simp only [Frame.streamOf] at hid
    split at hid
    · cases hid
    · rename_i hk
      cases hid
      simp [Frame.about, hk]

/-- The frame of another stream is no input of this one. -/
theorem input_ne {f : Frame} (hid : f.streamOf = some id) (hi : id ≠ i) : [f].filter (Frame.about i) = [] := by
  simp [about_ne hid, hi]

theorem input_eq {f : Frame} (hid : f.streamOf = some i) : [f].filter (Frame.about i) = [f] := by
  simp [about_ne hid]

theorem ctrlSend_resets (f : Frame) (s : Engine) : (s.ctrlSend f).resets = s.resets := by
  unfold ctrlSend
  split
  · rfl
  · split <;> rfl

theorem sendAck_resets (ack : Option Frame × SessionRecv) (s : Engine) :
    (s.sendAck ack).resets = s.resets := by
  unfold sendAck
  split
  · exact ctrlSend_resets _ _
  · rfl

theorem reset_resets (id : UInt32) (why : ResetReason) (s : Engine) :
    (s.reset id why).resets = s.resets ++ [(id, why)] := by
  rw [reset, ctrlSend_resets]
  unfold abortEntry
  split
  · unfold notify
    split <;> rfl
  · rfl

theorem reset_resets_ne (id : UInt32) (why : ResetReason) (s : Engine) :
    (s.reset id why).resets ≠ s.resets := by
  rw [reset_resets]
  simp

/-- Stream data at an engine. -/
theorem view_onData (h : s.Tables cfg) (hn : (s.tasks.map Task.id).Nodup) (hb : s.blocked = none)
    (hend : s.ended = none) (hid : id ≠ controlId) {payload : Bytes}
    (hr : (s.onData id payload).resets = s.resets) (i : UInt32) :
    ViewStep order initiates i (s.view i) ([.data id payload].filter (Frame.about i))
      ((s.onData id payload).view i) [] := by
  have hof : (Frame.data id payload).streamOf = some id := by simp [Frame.streamOf, hid]
  have hack := view_sendAck (i := i) (s.recv.received payload.length) hend fun f hf => by
    rw [received_frame hf]
    exact about_swindow _ i
  have hq := h.sendAck (s.recv.received payload.length)
  have hqr := sendAck_resets (s.recv.received payload.length) s
  unfold onData at hr ⊢
  dsimp only at hr ⊢
  generalize s.sendAck (s.recv.received payload.length) = q at hack hq hqr hr ⊢
  rcases hack with ⟨hqe, hqv⟩ | ⟨hqs, hqv⟩
  · rw [if_pos hqe, hqv]
    exact .gone _ _
  · have hqn : (q.tasks.map Task.id).Nodup := by
      rw [hqs]
      exact hn
    have hqb : q.blocked = none := by
      rw [hqs]
      exact hb
    have hqend : q.ended = none := by
      rw [hqs]
      exact hend
    rw [if_neg (by simp [hqend])] at hr
    rw [if_neg (by simp [hqend]), ← hqv]
    cases he : q.entries.lookup id with
    | none =>
      by_cases hi : id = i
      · subst hi
        rw [input_eq hof]
        exact .lost _ _ (view_entry_false he)
      · rw [input_ne hof hi]
        exact .stay _
    | some tid =>
      obtain ⟨t, ht, htid⟩ := hq.entry_task he
      cases hx : exceedsCredit payload t with
      | false =>
        obtain ⟨hok, heq, hne⟩ := view_deliver hqn hqb ht hx i
        dsimp only
        generalize q.deliver tid payload = d at hok heq hne ⊢
        obtain ⟨ok, q'⟩ := d
        cases hok
        by_cases hi : id = i
        · subst hi
          rw [input_eq hof]
          exact .delivered _ _ t payload (view_task hqn ht htid) (view_entry_true he hqend)
            (waitOf_none hqb _) hx (heq htid)
        · rw [input_ne hof hi]
          have hv : q'.view i = q.view i := hne (htid ▸ hi)
          rw [hv]
          exact .stay _
      | true =>
        have hd : q.deliver tid payload = (false, q) := by
          unfold deliver
          rw [if_pos (by simp [ht, hx])]
        rw [he] at hr
        simp only [hd] at hr
        exact absurd (hr.trans hqr.symm) (reset_resets_ne id _ q)

theorem view_onClose (h : s.Tables cfg) (hn : (s.tasks.map Task.id).Nodup) (hb : s.blocked = none)
    (hend : s.ended = none) (reason : Option String) (i : UInt32) :
    ViewStep order initiates i (s.view i) ([.close id reason].filter (Frame.about i))
      ((s.onClose id reason).view i) [] := by
  have hof : (Frame.close id reason).streamOf = some id := rfl
  have hq : Tables cfg { s with pendingFc := s.pendingFc.erase id } :=
    { h with
      pending_fc := (Finset.card_erase_le).trans h.pending_fc
      plain := fun hp => ⟨(h.plain hp).1, by simp [(h.plain hp).2.1], (h.plain hp).2.2⟩ }
  have hqv : ({ s with pendingFc := s.pendingFc.erase id } : Engine).view i = s.view i := rfl
  unfold onClose
  rw [← hqv]
  have hqn : (({ s with pendingFc := s.pendingFc.erase id } : Engine).tasks.map Task.id).Nodup := hn
  have hqb : ({ s with pendingFc := s.pendingFc.erase id } : Engine).blocked = none := hb
  have hqend : ({ s with pendingFc := s.pendingFc.erase id } : Engine).ended = none := hend
  have hqe : ({ s with pendingFc := s.pendingFc.erase id } : Engine).entries = s.entries := rfl
  dsimp only
  generalize ({ s with pendingFc := s.pendingFc.erase id } : Engine) = q at hq hqn hqb hqend hqe ⊢
  rw [← hqe]
  cases reason with
  | some why =>
    have ha := view_abortEntry hq hqn hqb id i
    change ViewStep order initiates i (q.view i) _ ((q.abortEntry id).view i) []
    by_cases hi : id = i
    · rw [hi] at hof ⊢
      rw [input_eq hof]
      rcases ha.2 hi with ⟨he, hs⟩ | ⟨t, ht, he, hv⟩
      · rw [← hi, hs]
        exact .lost _ _ (view_entry_false he)
      · obtain ⟨tid, he⟩ := Option.ne_none_iff_exists'.mp he
        rw [hi] at he hv
        exact .aborted _ _ t why ht (view_entry_true he hqend) (waitOf_none hqb _) hv
    · rw [input_ne hof hi, ha.1 hi]
      exact .stay _
  | none =>
    cases he : q.entries.lookup id with
    | none =>
      change ViewStep order initiates i (q.view i) _ (q.view i) []
      by_cases hi : id = i
      · rw [hi] at hof he ⊢
        rw [input_eq hof]
        exact .lost _ _ (view_entry_false he)
      · rw [input_ne hof hi]
        exact .stay _
    | some tid =>
      change ViewStep order initiates i (q.view i) _ ((q.notify tid .closed).view i) []
      obtain ⟨t, ht, htid⟩ := hq.entry_task he
      have hv := view_notify hqn hqb ht .closed i
      by_cases hi : id = i
      · rw [hi] at hof he htid ⊢
        rw [input_eq hof]
        exact .closed _ _ t (view_task hqn ht htid) (view_entry_true he hqend) (waitOf_none hqb _) (hv.1 htid)
      · rw [input_ne hof hi]
        simp only [hv.2 (htid ▸ hi)]
        exact .stay _

theorem view_task_none (h : s.Tables cfg) (hn : (s.tasks.map Task.id).Nodup) (ht : (s.view i).task = none) :
    (s.view i).entry = false := by
  cases he : s.entries.lookup i with
  | none => exact view_entry_false he
  | some tid =>
    obtain ⟨t, hg, hid⟩ := h.entry_task he
    rw [view_task hn hg hid] at ht
    cases ht

theorem view_grantWindow (window : Option UInt32) (s : Engine) (i : UInt32) :
    (s.grantWindow window).view i = s.view i ∨
      (s.grantWindow window).view i = { s.view i with entry := false } := by
  unfold grantWindow
  split
  · exact .inl rfl
  · exact .inl rfl
  · exact .inr (view_endWith _ s i)

theorem view_hello (window : Option UInt32) (s : Engine) (i : UInt32) :
    (match cfg.side with
      | .initiate _ => s.initiateHello window
      | .accept _ => s.acceptHello window).view i = s.view i ∨
    (match cfg.side with
      | .initiate _ => s.initiateHello window
      | .accept _ => s.acceptHello window).view i = { s.view i with entry := false } := by
  split
  · unfold initiateHello
    have hg : (if s.accepting then s else s.grantWindow window).view i = s.view i ∨
        (if s.accepting then s else s.grantWindow window).view i = { s.view i with entry := false } := by
      split
      · exact .inl rfl
      · exact view_grantWindow window s i
    dsimp only
    generalize (if s.accepting then s else s.grantWindow window) = q at hg ⊢
    split
    · exact hg
    · exact hg
  · unfold acceptHello
    dsimp only
    split
    · exact .inl rfl
    · exact view_grantWindow window { s with recv := { s.recv with on := window.isSome } } i

/-- A control message at an engine. -/
theorem view_onControl (h : s.Tables cfg) (hn : (s.tasks.map Task.id).Nodup)
    (hend : s.ended = none) {payload : Bytes} (hr : (s.onControl cfg payload).resets = s.resets)
    (i : UInt32) :
    ViewStep order initiates i (s.view i) ([.data controlId payload].filter (Frame.about i))
      ((s.onControl cfg payload).view i) [] := by
  have hstay : ∀ v, v = s.view i ∨ v = { s.view i with entry := false } →
      ViewStep order initiates i (s.view i) [] v [] := by
    rintro v (rfl | rfl)
    · exact .stay _
    · exact .gone _ _
  have hin : ∀ c, parseControl payload = c →
      [Frame.data controlId payload].filter (Frame.about i) =
        match c with
        | some (.window k _) => if k = i then [.data controlId payload] else []
        | _ => [] := by
    rintro c rfl
    simp only [List.filter_singleton, Frame.about, if_true]
    split
    · rename_i k _ _
      by_cases hk : k = i <;> simp [hk]
    · rfl
  by_cases hfc : cfg.fcEnabled = true
  · cases hp : parseControl payload with
    | none =>
      rw [hin _ hp]
      simp only [onControl, hfc, if_true, applyControl, hp]
      exact .stay _
    | some c =>
      cases c with
      | hello window =>
        rw [hin _ hp]
        simp only [onControl, hfc, if_true, applyControl, hp]
        exact hstay _ (view_hello window s i)
      | swindow bytes =>
        rw [hin _ hp]
        simp only [onControl, hfc, if_true, applyControl, hp, onSWindow]
        split
        · exact .stay _
        · split
          · exact .stay _
          · exact hstay _ (.inr (view_endWith _ s i))
      | fcOn id =>
        rw [hin _ hp]
        by_cases hc : maxPendingFc ≤ s.pendingFc.card
        · simp only [onControl, hfc, if_true, applyControl, hp, hc]
          exact hstay _ (.inr (view_endWith _ s i))
        · simp only [onControl, hfc, if_true, applyControl, hp, hc, if_false]
          exact .stay _
      | window k bytes =>
        have hf : (Frame.data controlId payload).windowFor k = some bytes := by
          simp [Frame.windowFor, hp]
        rw [hin _ hp]
        simp only [onControl, hfc, if_true, applyControl, hp]
        cases he : s.entries.lookup k with
        | none =>
          dsimp only
          by_cases hk : k = i
          · rw [if_pos hk]
            exact .lost _ _ (hk ▸ view_entry_false he)
          · rw [if_neg hk]
            exact .stay _
        | some tid =>
          obtain ⟨t, ht, hid⟩ := h.entry_task he
          have hroom : t.credited = true → ¬ fcWindow - t.credit.free < bytes.toNat := by
            intro hc hx
            simp only [onControl, hfc, if_true, applyControl, hp, he, ht, hc, hx] at hr
            exact reset_resets_ne k _ s hr
          simp only [ht]
          by_cases hk : k = i
          · subst hk
            rw [if_pos rfl]
            have htask := view_task hn ht hid
            cases hc : t.credited with
            | false => exact .windowIgnored _ t _ bytes hf htask hc
            | true =>
              have hx := hroom hc
              simp only [hx, if_true, if_false]
              rw [view_modifyTask (f := addCredit bytes.toNat) hn ht rfl, if_pos hid]
              exact .credit _ t _ bytes hf htask (view_entry_true he hend) hc (Nat.le_of_not_lt hx)
          · rw [if_neg hk]
            have hne : t.id ≠ i := hid ▸ hk
            cases hc : t.credited with
            | false => exact .stay _
            | true =>
              have hx := hroom hc
              simp only [hx, if_true, if_false]
              rw [view_modifyTask (f := addCredit bytes.toNat) hn ht rfl, if_neg hne]
              exact .stay _
  · -- without flow control nothing is credited, and every control message is ignored
    have hs : s.onControl cfg payload = s := if_neg hfc
    have hfc' : cfg.fcEnabled = false := by simpa using hfc
    rw [hs, hin _ rfl]
    split
    · rename_i k bytes hp
      by_cases hk : k = i
      · subst hk
        have hf : (Frame.data controlId payload).windowFor k = some bytes := by
          simp [Frame.windowFor, hp]
        rw [if_pos rfl]
        cases ht : (s.view k).task with
        | none => exact .lost _ _ (view_task_none h hn ht)
        | some t =>
          obtain ⟨tid, hg⟩ := List.mem_iff_getElem?.mp (List.mem_of_find?_eq_some ht)
          exact .windowIgnored _ t _ bytes hf ht ((h.plain hfc').2.2 tid t hg)
      · rw [if_neg hk]
        exact .stay _
    · exact .stay _

theorem new_id (id : UInt32) (credited session : Bool) (phase : Phase) :
    (Task.new id credited session phase).id = id := rfl

theorem view_spawn (hb : s.blocked = none) (hend : s.ended = none) (hfree : s.stream t.id = none)
    (i : UInt32) :
    (s.spawn t).view i = if t.id = i then { s.view i with task := some t, entry := true } else s.view i := by
  have hs : (s.spawn t).stream i = if t.id = i then some t else s.stream i := by
    simp only [stream, spawn, List.find?_append]
    by_cases hi : t.id = i
    · have hnone : s.tasks.find? (fun u => u.id = i) = none := hi ▸ hfree
      simp [hi, hnone]
    · simp [hi]
  have hw : (s.spawn t).waitOf i = s.waitOf i := by
    rw [waitOf_none hb, waitOf_none (show (s.spawn t).blocked = none from hb)]
  have he : decide (i ∈ (s.spawn t).entries) = (decide (t.id = i) || decide (i ∈ s.entries)) := by
    simp only [spawn, AList.mem_insert, Bool.decide_or]
    congr 1
    exact decide_eq_decide.mpr eq_comm
  simp only [view, hs, hw, he, show (s.spawn t).ended = none from hend, hend]
  by_cases hi : t.id = i
  · simp only [hi, if_true, decide_true, Bool.true_or, Option.isNone_none, Bool.and_self]
    rfl
  · simp only [hi, if_false, decide_false, Bool.false_or]
    rfl

theorem view_onOpen (hs : initiates = false) (hb : s.blocked = none) (hend : s.ended = none)
    (gate : String → Except String Unit) (target : String) (hfree : s.stream id = none) (i : UInt32) :
    ViewStep order initiates i (s.view i) ([.open id target].filter (Frame.about i))
      ((s.onOpen cfg gate id target).view i) [] := by
  have hof : (Frame.open id target).streamOf = some id := rfl
  have ho : Opening cfg s id _ := opening_onOpen gate id target
  generalize s.onOpen cfg gate id target = s' at ho ⊢
  cases ho with
  | inUse =>
    rw [view_endWith]
    exact .gone _ _
  | refused reason =>
    -- a refusal is a Close on the control queue
    rcases ctrlSend_cases (.close id (some reason)) (show (s.taken id).ended = none from hend) with hc | hc
    · rw [hc, view_endWith]
      exact .gone _ _
    · rw [hc, view_ctrl]
      by_cases hi : id = i
      · subst hi
        rw [input_eq hof, input_eq (f := .close id (some reason)) rfl]
        exact .openRefused _ target reason hs hfree
      · rw [input_ne hof hi, input_ne (f := .close id (some reason)) rfl hi, List.append_nil]
        exact .stay _
  | accepted =>
    rw [view_spawn (s := s.taken id) hb hend hfree, new_id]
    by_cases hi : id = i
    · subst hi
      rw [input_eq hof, if_pos rfl]
      exact .opened _ _ _ target hs hfree
    · rw [input_ne hof hi, if_neg hi]
      exact .stay _

theorem view_onConnection (hs : initiates = true) (hb : s.blocked = none) (hend : s.ended = none)
    {target : String}
    (hfree : ∀ id, freeId s.running (s.running.keys.length + 1) s.nextId = some id → s.stream id = none)
    (hq : s.onConnection cfg target = some s') (i : UInt32) :
    ViewStep order initiates i (s.view i) [] (s'.view i) [] := by
  cases connecting_onConnection hend hq with
  | refused => exact .stay _
  | backlog id =>
    have hv : ({ s with nextId := bump id, ended := some .backlog } : Engine).view i =
        { s.view i with entry := false } := view_endWith .backlog { s with nextId := bump id } i
    rw [hv]
    exact .gone _ _
  | announced id =>
    -- the FC_ON is no frame of the stream
    have hv : ({ s with nextId := bump id, ctrl := s.ctrl ++ [fcOnFrame id], opening := some id } :
      Engine).view i =
        s.view i := by
      refine (view_ctrl (fcOnFrame id) s i).trans ?_
      rw [List.filter_singleton, about_fcOn, cond_false, List.append_nil]
    rw [hv]
    exact .stay _
  | plain id ha hp hid =>
    have hid' := hfree id hid
    rw [view_spawn (s := { s with nextId := bump id }) hb hend hid', new_id]
    by_cases hi : id = i
    · subst hi
      rw [if_pos rfl]
      exact .connectedPlain _ target hs hid'
    · rw [if_neg hi]
      exact .stay _

theorem view_onSendOpen (hs : initiates = true) (hb : s.blocked = none) (hend : s.ended = none)
    {target : String}
    (hfree : ∀ id, s.opening = some id → s.stream id = none)
    (hq : s.onSendOpen target = some s') (i : UInt32) :
    ViewStep order initiates i (s.view i) [] (s'.view i) [] := by
  cases sendingOpen_onSendOpen hend hq with
  | backlog =>
    rw [view_endWith]
    exact .gone _ _
  | sent id ho =>
    have hid := hfree id ho
    have hv : ({ s with opening := none, ctrl := s.ctrl ++ [.open id target] } : Engine).view i =
        { s.view i with ctrl := (s.view i).ctrl ++ [Frame.open id target].filter (Frame.about i) } :=
      view_ctrl (.open id target) s i
    rw [view_spawn (s := { s with opening := none, ctrl := s.ctrl ++ [.open id target] }) hb hend
      hid, hv, new_id]
    by_cases hi : id = i
    · subst hi
      rw [input_eq (f := .open id target) rfl, if_pos rfl]
      exact .connected _ _ target hs hid
    · rw [input_ne (f := .open id target) rfl hi, List.append_nil, if_neg hi]
      exact .stay _

theorem view_onJoin (h : s.Tables cfg) (hn : (s.tasks.map Task.id).Nodup) (hq : s.onJoin tid = some s')
    (i : UInt32) : ViewStep order initiates i (s.view i) [] (s'.view i) [] := by
  obtain ⟨t, f, ht, hp, hf, rfl⟩ := h.onJoin_eq hq
  have hid : (f t).id = t.id := by
    rcases hf with rfl | rfl <;> rfl
  have hv : ({ s with running := s.running.erase t.id, entries := s.entries.erase t.id,
                      tasks := s.tasks.modify tid f } : Engine).view i =
      if t.id = i then { s.view i with entry := false, task := some (f t) } else s.view i := by
    have hm := view_modifyTask (s := { s with entries := s.entries.erase t.id }) hn ht hid i
    rw [view_erase] at hm
    refine Eq.trans ?_ (hm.trans ?_)
    · rfl
    · split <;> rfl
  rw [hv]
  by_cases hi : t.id = i
  · rw [if_pos hi]
    refine .joined _ t _ (view_task hn ht hi) hp ?_
    rcases hf with rfl | rfl
    · exact .inl rfl
    · exact .inr rfl
  · rw [if_neg hi]
    exact .stay _

theorem view_onUnblock (hn : (s.tasks.map Task.id).Nodup) (hq : s.onUnblock = some s') (i : UInt32) :
    ViewStep order initiates i (s.view i) [] (s'.view i) [] := by
  unfold onUnblock at hq
  split at hq
  · cases hq
  · rename_i tid msg hb
    split at hq
    · cases hq
      have hclear : ({ s with blocked := none } : Engine).view i = { s.view i with wait := [] } := rfl
      have hwait : s.waitOf i = if (s.tasks[tid]?).any (fun t => t.id = i) then [msg] else [] := by
        unfold waitOf
        rw [hb]
      cases ht : s.tasks[tid]? with
      | none =>
        have hm : ({ s with blocked := none } : Engine).modifyTask tid (pushIn msg) =
            { s with blocked := none } := by
          simp only [modifyTask]
          rw [List.modify_eq_self (List.getElem?_eq_none_iff.mp ht)]
        rw [ht, Option.any_none, if_neg (by simp)] at hwait
        have hv : s.view i = { s.view i with wait := [] } := by
          simp only [view, hwait]
        rw [hm, hclear, ← hv]
        exact .stay _
      | some t =>
        rw [ht, Option.any_some] at hwait
        rw [view_modifyTask (s := { s with blocked := none }) hn ht (pushIn_id msg t) i, hclear]
        by_cases hi : t.id = i
        · rw [if_pos hi]
          rw [if_pos (by simpa using hi)] at hwait
          exact .unblocked _ t msg (view_task hn ht hi) hwait
        · rw [if_neg hi]
          rw [if_neg (by simpa using hi)] at hwait
          have hv : s.view i = { s.view i with wait := [] } := by
            simp only [view, hwait]
          rw [← hv]
          exact .stay _
    · cases hq

/-- All frames of a pump are frames of its stream. -/
theorem moves_about {orphan : Bool} {m : PumpMove} (hm : t.Moves orphan m) (hid : t.id ≠ controlId) :
    ∀ f ∈ m.frames, f.about i = decide (t.id = i) := by
  intro f hf
  rcases Task.moves_frames hm f hf with ⟨target, rfl⟩ | ⟨reason, rfl⟩ | ⟨chunk, rfl⟩ | ⟨bytes, rfl⟩
  · rfl
  · rfl
  · simp [Frame.about, hid]
  · exact about_window _ _ i

theorem filter_about {fs : List Frame} {b : Bool} (h : ∀ f ∈ fs, f.about i = b) :
    fs.filter (Frame.about i) = if b then fs else [] := by
  cases b with
  | true => simpa using h
  | false => simpa using h

theorem Tables.id_ne (h : s.Tables cfg) (ht : s.tasks[tid]? = some t) (ha : t.ended = false) :
    t.id ≠ controlId := by
  intro he
  have hr : s.running.lookup t.id = some tid := by
    apply h.task_runs tid t ht
    intro hj
    rw [Task.ended, hj] at ha
    cases ha
  rw [he] at hr
  exact h.no_control (AList.lookup_isSome.mp (by rw [hr]; rfl))

theorem view_onPump (h : s.Tables cfg) (hn : (s.tasks.map Task.id).Nodup) {e : PumpEvent}
    (hq : s.onPump tid e = some s') (i : UInt32) :
    ViewStep order initiates i (s.view i) [] (s'.view i) [] := by
  obtain ⟨t, m, session, ht, hm, -, -, rfl⟩ := onPump_eq hq
  have hfs := filter_about (moves_about (i := i) hm (h.id_ne ht (Task.moves_running hm)))
  have hv := view_modifyTask (f := fun _ => m.task) hn ht (Task.moves_id hm) i
  have hview : ({ s with tasks := s.tasks.set tid m.task, out := s.out ++ m.frames,
                         session := session } : Engine).view i =
      { (s.modifyTask tid (fun _ => m.task)).view i with
        out := (s.view i).out ++ m.frames.filter (Frame.about i) } := by
    simp only [view, List.filter_append, List.set_eq_modify]
    rfl
  rw [hview, hv, hfs]
  by_cases hi : t.id = i
  · simp only [hi, if_true, decide_true]
    exact .pump _ t m _ (view_task hn ht hi) hm
  · simp only [hi, if_false, decide_false, Bool.false_eq_true, List.append_nil]
    exact .stay _

end Engine

def EngineConfig.initiates (cfg : EngineConfig) : Bool :=
  match cfg.side with
  | .initiate _ => true
  | .accept _ => false

def EngineEvent.input : EngineEvent → List Frame
  | .frame f => [f]
  | _ => []

namespace Engine
variable {cfg : EngineConfig} {s s' : Engine} {order : Bool}

theorem view_turn (h : s.Tables cfg) (hn : (s.tasks.map Task.id).Nodup) (hb : s.blocked = none)
    (hend : s.ended = none) {e : EngineEvent}
    (hopen : cfg.initiates = false → ∀ id target, e = .frame (.open id target) → s.stream id = none)
    (hconn : ∀ id, e = .connection → freeId s.running (s.running.keys.length + 1) s.nextId = some id →
      s.stream id = none)
    (hsend : ∀ id, e = .sendOpen → s.opening = some id → s.stream id = none)
    (hq : s.turn cfg e = some s') (hr : s'.resets = s.resets) (i : UInt32) :
    ViewStep order cfg.initiates i (s.view i) (e.input.filter (Frame.about i)) (s'.view i) [] := by
  -- no turn but the reading of a frame has an input
  have hinput : (∀ f, e ≠ .frame f) → e.input.filter (Frame.about i) = [] := by
    intro he
    cases e with
    | frame f => exact absurd rfl (he f)
    | _ => rfl
  cases turn_cases hq with
  | connection target s' hside hc =>
    exact view_onConnection (by rw [EngineConfig.initiates, hside]) hb hend (fun id => hconn id rfl) hc i
  | sendOpen target s' hside hc =>
    exact view_onSendOpen (by rw [EngineConfig.initiates, hside]) hb hend (fun id => hsend id rfl) hc i
  | frame f =>
    cases f with
    | data id payload =>
      simp only [onFrame, EngineEvent.input] at hr ⊢
      by_cases hid : id = controlId
      · rw [if_pos hid] at hr ⊢
        rw [hid]
        exact view_onControl h hn hend hr i
      · rw [if_neg hid] at hr ⊢
        exact view_onData h hn hb hend hid hr i
    | close id reason => exact view_onClose h hn hb hend reason i
    | «open» id target =>
      simp only [onFrame, EngineEvent.input]
      split
      · rename_i hside
        by_cases hi : id = i
        · subst hi
          rw [input_eq (f := .open id target) rfl]
          exact .openIgnored _ target (by rw [EngineConfig.initiates, hside])
        · rw [input_ne (f := .open id target) rfl hi]
          exact .stay _
      · rename_i hside
        have hi : cfg.initiates = false := by rw [EngineConfig.initiates, hside]
        exact view_onOpen hi hb hend _ target (hopen hi id target rfl) i
  | join tid s' hj => exact view_onJoin h hn hj i
  | flush =>
    have hack := view_sendAck (i := i) (s.recv.flush) hend fun f hf => by
      rw [(flush_frame hf).1]
      exact about_swindow _ i
    unfold onFlush
    rcases hack with ⟨-, hv⟩ | ⟨-, hv⟩
    · rw [hv]
      exact .gone _ _
    · rw [hv]
      exact .stay _
  | flags e accepting helloDeadline stopping he =>
    rw [hinput he]
    exact .stay _
  | gone e why he =>
    rw [hinput he, view_endWith]
    exact .gone _ _

theorem overtakes_filter {f : Frame} {ctrl : List Frame} (h : f.overtakes ctrl = false) (i : UInt32) :
    f.overtakes (ctrl.filter (Frame.about i)) = false := by
  unfold Frame.overtakes at h ⊢
  cases hf : f.streamOf with
  | none => rfl
  | some id =>
    rw [hf, Option.any_some, List.any_eq_false] at h
    rw [Option.any_some, List.any_eq_false]
    intro g hg
    exact h g (List.mem_of_mem_filter hg)

/-- Each step of an engine that resets no stream is, for every stream, one of the stream's own steps
or nothing. -/
theorem view_step (h : s.Tables cfg) (hn : (s.tasks.map Task.id).Nodup) {e : EngineEvent}
    {w : List Frame} (hq : s.step cfg e = some (s', w)) (hr : s'.resets = s.resets)
    (hopen : cfg.initiates = false → ∀ id target, e = .frame (.open id target) → s.stream id = none)
    (hconn : ∀ id, e = .connection → freeId s.running (s.running.keys.length + 1) s.nextId = some id →
      s.stream id = none)
    (hsend : ∀ id, e = .sendOpen → s.opening = some id → s.stream id = none)
    (horder : order = true → ∀ f out, e = .pollOut → s.out = f :: out → f.overtakes s.ctrl = false)
    (i : UInt32) :
    ViewStep order cfg.initiates i (s.view i) (e.input.filter (Frame.about i)) (s'.view i)
      (w.filter (Frame.about i)) := by
  obtain ⟨hend, hc⟩ := step_cases hq
  rcases hc with ⟨rfl, -, rfl, rfl⟩ | ⟨f, ctrl, rfl, hctrl, rfl, rfl⟩ | ⟨rfl, -, rfl, rfl⟩ |
    ⟨f, out, rfl, -, hout, rfl, rfl⟩ | ⟨rfl, rfl, rfl⟩ | ⟨rfl, hu, rfl⟩ | ⟨tid, pe, rfl, hp, rfl⟩ |
    ⟨hb, -, ht, rfl⟩
  · exact .stay _
  · have hv : (s.view i).ctrl = (f :: ctrl).filter (Frame.about i) := by
      rw [← hctrl]
      rfl
    by_cases hf : f.about i = true
    · rw [List.filter_cons_of_pos hf] at hv
      have hw : [f].filter (Frame.about i) = [f] := by simp [hf]
      rw [hw]
      exact .pollCtrl _ f _ hv
    · rw [List.filter_cons_of_neg hf] at hv
      have hw : [f].filter (Frame.about i) = [] := by simp [hf]
      have hs : ({ s with ctrl := ctrl, ctrlEmpty := false } : Engine).view i = s.view i := by
        rw [show s.view i = { s.view i with ctrl := ctrl.filter (Frame.about i) } by rw [← hv]]
        rfl
      rw [hw, hs]
      exact .stay _
  · exact .stay _
  · have hv : (s.view i).out = (f :: out).filter (Frame.about i) := by
      rw [← hout]
      rfl
    by_cases hf : f.about i = true
    · rw [List.filter_cons_of_pos hf] at hv
      have hw : [f].filter (Frame.about i) = [f] := by simp [hf]
      rw [hw]
      exact .pollOut _ f _ hv fun ho => overtakes_filter (horder ho f out rfl hout) i
    · rw [List.filter_cons_of_neg hf] at hv
      have hw : [f].filter (Frame.about i) = [] := by simp [hf]
      have hs : ({ s with out := out, ctrlEmpty := false } : Engine).view i = s.view i := by
        rw [show s.view i = { s.view i with out := out.filter (Frame.about i) } by rw [← hv]]
        rfl
      rw [hw, hs]
      exact .stay _
  · exact .stay _
  · exact view_onUnblock hn hu i
  · exact view_onPump h hn hp i
  · exact view_turn h hn hb hend hopen hconn hsend ht hr i

end Engine

end CtAgent.Forward
