import CtAgent.Forward.Lane
import CtAgent.Forward.Script

/-! One direction of a stream at its two engines: what the steps of the sending view send, and what the
steps of the receiving view take. -/
namespace CtAgent.Forward
open CtAgent.Lib

/-- What a frame of stream `i` is to the pump that gets it. -/
def Frame.item (i : UInt32) : Frame → Option StreamIn
  | .open _ _ => none
  | .data id payload => if id = i then some (.data payload) else none
  | .close id reason => if id = i then some (streamInForClose reason) else none

def items (i : UInt32) (fs : List Frame) : List StreamIn := fs.filterMap (Frame.item i)

section
variable (i : UInt32) (fs gs : List Frame) (f : Frame)

@[simp] theorem items_nil : items i [] = [] := rfl

@[simp] theorem items_append : items i (fs ++ gs) = items i fs ++ items i gs := by
  simp [items]

theorem items_cons : items i (f :: fs) = items i [f] ++ items i fs := items_append i [f] fs

end

theorem items_single {i : UInt32} {f : Frame} (h : f.item i = none) : items i [f] = [] := by
  simp [items, h]

theorem item_window {i : UInt32} (hi : i ≠ controlId) (id bytes : UInt32) :
    (windowFrame id bytes).item i = none := by
  simp only [windowFrame, Frame.item, if_neg hi.symm]

theorem item_windowFor {i : UInt32} (hi : i ≠ controlId) {f : Frame} {bytes : UInt32}
    (h : f.windowFor i = some bytes) : f.item i = none := by
  cases f with
  | data id payload =>
    simp only [Frame.windowFor] at h
    split at h
    · rename_i hid
      simp only [Frame.item, hid, if_neg hi.symm]
    · cases h
  | _ => cases h

/-- The chunk a pump has read and not queued. -/
def Up.chunk : Up → Bytes
  | .credit chunk => chunk
  | .window chunk => chunk
  | .room chunk => chunk
  | _ => []

/-- What `write_all` has not written yet. -/
def Down.rest : Down → Bytes
  | .writing _ rest => rest
  | _ => []

namespace Task

/-- The half from the socket to the peer goes on. -/
def sending (t : Task) : Bool :=
  !t.ended && match t.up with
    | .done => false
    | _ => true

/-- The half from the peer to the socket goes on. -/
def taking (t : Task) : Bool :=
  !t.ended && match t.down with
    | .done | .resetting => false
    | _ => true

def source (t : Task) : Source := ⟨t.read, t.up.chunk, t.sending⟩

variable {t : Task} {m : PumpMove} {orphan : Bool} {i : UInt32}

theorem chunk_paid (t : Task) (chunk : Bytes) : (t.paid chunk).chunk = chunk := by
  unfold paid
  split <;> rfl

theorem source_congr {t' : Task} (hp : t'.ended = t.ended) (hr : t'.read = t.read) (hu : t'.up = t.up) :
    t'.source = t.source := by
  simp only [source, sending, hp, hr, hu]

theorem source_finish (t : Task) : t.finish.source = ⟨t.read, [], false⟩ := rfl

theorem sending_iff (hp : t.phase = .pumping) : t.sending = true ↔ t.up ≠ .done := by
  have hend := ended_of_pumping hp
  cases hu : t.up <;> simp [sending, hend, hu]

theorem sends_same {s s' : Source} {ms : List StreamIn} (h : s' = s) (hms : ms = []) : s.Sends ms s' := by
  rw [h, hms]
  exact .same

/-- A task that stops may have read something it does not send any more. -/
theorem sends_stop {t' : Task} (more : Bytes) (hr : t'.read = t.read ++ more)
    (hm : more ≠ [] → t.sending = true) {ms : List StreamIn} (hms : ms = [] ∨ ms = [.aborted]) :
    t.source.Sends ms t'.finish.source := by
  rw [source_finish, hr]
  exact .stop more [] hm ms hms

theorem paid_ne (t : Task) (chunk : Bytes) : t.paid chunk ≠ .done := by
  unfold paid
  split <;> simp

theorem source_mk {t' : Task} {read hand : Bytes} (hp : t'.phase = .pumping) (hr : t'.read = read)
    (hh : t'.up.chunk = hand) (hu : t'.up ≠ .done) : t'.source = ⟨read, hand, true⟩ := by
  rw [source, hr, hh, (sending_iff hp).mpr hu]

theorem sends_chunk {t' : Task} {chunk : Bytes} (hp : t.phase = .pumping) (hu : t.up = .reading)
    (hp' : t'.phase = .pumping) (hr : t'.read = t.read ++ chunk) (hc : t'.up.chunk = chunk)
    (hne : t'.up ≠ .done) : t.source.Sends [] t'.source := by
  rw [source_mk hp' hr hc hne]
  refine .read chunk ((sending_iff hp).mpr (by simp [hu])) ?_
  rw [source, hu]
  rfl

/-- What a step of a task does to its half towards the peer. -/
theorem source_moves (hm : t.Moves orphan m) (hid : t.id = i) (hi : i ≠ controlId) :
    t.source.Sends (items i m.frames) m.task.source := by
  have hend : ∀ t' : Task, t.phase = .pumping → t'.phase = t.phase → t'.ended = t.ended := by
    intro t' hp hp'
    rw [ended, ended, hp', hp]
  have hsending : ∀ u : Up, t.phase = .pumping → t.up = u → u ≠ .done → t.sending = true := by
    intro u hp hu hne
    rw [sending_iff hp, hu]
    exact hne
  cases hm with
  | stop frames ha hf =>
    refine sends_stop [] (List.append_nil _).symm (fun h => absurd rfl h) ?_
    rcases hf with rfl | ⟨why, rfl⟩
    · exact .inl rfl
    · right
      simp [stop, items, Frame.item, hid, streamInForClose]
  | opened target hp =>
    refine sends_same (source_congr ?_ rfl rfl) rfl
    rcases hp with hp | hp <;> simp [ended, goto, hp]
  | opening target hp => exact sends_same (source_congr (by simp [ended, goto, hp]) rfl rfl) rfl
  | dialed hp => exact sends_same (source_congr (by simp [ended, goto, hp]) rfl rfl) rfl
  | refusing why hp => exact sends_same (source_congr (by simp [ended, goto, hp]) rfl rfl) rfl
  | idling hp => exact sends_same (source_congr (by simp [ended, goto, hp]) rfl rfl) rfl
  | refused chunk hp hu => exact sends_stop chunk rfl (fun _ => hsending _ hp hu (by simp)) (.inl rfl)
  | offered chunk hp hu => exact sends_chunk hp hu hp rfl (chunk_paid t chunk) (paid_ne t chunk)
  | bought chunk c hp hu => exact sends_chunk hp hu hp rfl (chunk_paid t chunk) (paid_ne t chunk)
  | asked chunk c hp hu => exact sends_chunk hp hu hp rfl rfl (by simp [goto])
  | granted chunk n c hp hu =>
    refine sends_same (Eq.trans (source_mk hp rfl (chunk_paid t chunk) (paid_ne t chunk)) ?_) rfl
    exact (source_mk hp rfl (by rw [hu]; rfl) (by simp [hu])).symm
  | waits chunk hp hu => exact .same
  | took chunk use hp hu =>
    refine sends_same (Eq.trans (source_mk hp rfl rfl (by simp)) ?_) rfl
    exact (source_mk hp rfl (by rw [hu]; rfl) (by simp [hu])).symm
  | queued chunk hp hu =>
    have hitems : items i [.data t.id chunk] = [.data t.source.hand] := by
      simp [items, Frame.item, hid, source, hu, Up.chunk]
    have hafter : ({ t with up := .reading } : Task).source = ⟨t.read, [], true⟩ :=
      source_mk hp rfl rfl (by simp)
    have hgo : t.source.sending = true := hsending _ hp hu (by simp)
    rw [hitems, hafter]
    exact .queued hgo
  | closed hp hu =>
    have hhand : t.source.hand = [] := by
      rcases hu with hu | hu <;> simp [source, hu, Up.chunk]
    have hgo : t.source.sending = true := by
      rcases hu with hu | hu
      · exact hsending _ hp hu (by simp)
      · exact hsending _ hp hu (by simp)
    have hitems : items i [.close t.id none] = [.closed] := by
      simp [items, Frame.item, hid, streamInForClose]
    have hafter : ({ t with up := .done } : Task).source = ⟨t.read, [], false⟩ := by
      simp [source, sending, Up.chunk]
    rw [goto, hitems, hafter]
    exact .closed hgo hhand
  | closing u hp hu h =>
    have hu' : u.chunk = [] ∧ u ≠ .done := by
      rcases h with rfl | rfl
      · exact ⟨rfl, by simp⟩
      · exact ⟨rfl, by simp⟩
    refine sends_same (Eq.trans (source_mk hp rfl hu'.1 hu'.2) ?_) rfl
    exact (source_mk hp rfl (by rw [hu]; rfl) (by simp [hu])).symm
  | wroteStop payload rest hp =>
    exact sends_stop [] (List.append_nil _).symm (fun h => absurd rfl h) (.inl rfl)
  | wroteReported payload rest hp =>
    refine sends_same (source_congr (hend _ hp rfl) rfl rfl) ?_
    exact items_single (item_window hi _ _)
  | reported hp =>
    refine sends_same (source_congr (hend _ hp rfl) rfl rfl) ?_
    exact items_single (item_window hi _ _)
  | recvData payload inbound hp => exact sends_same (source_congr (hend _ hp rfl) rfl rfl) rfl
  | recvClosed inbound hp => exact sends_same (source_congr (hend _ hp rfl) rfl rfl) rfl
  | recvNone hp => exact sends_same (source_congr (hend _ hp rfl) rfl rfl) rfl
  | wrote payload rest n hp => exact sends_same (source_congr (hend _ hp rfl) rfl rfl) rfl
  | wroteAll payload rest hp => exact sends_same (source_congr (hend _ hp rfl) rfl rfl) rfl
  | counted payload rest hp => exact sends_same (source_congr (hend _ hp rfl) rfl rfl) rfl
  | reporting payload rest hp => exact sends_same (source_congr (hend _ hp rfl) rfl rfl) rfl
  | downResetting payload rest hp => exact sends_same (source_congr (hend _ hp rfl) rfl rfl) rfl

end Task

/-- A task whose peer is `s`: what it wrote, and what it still gets while it takes data. `behind` are
the messages behind its own queue. -/
structure Fed (s : Source) (linked : Bool) (behind : List StreamIn) (t : Task) : Prop where
  written : t.written <+: s.read
  shut : t.shut = true → t.written = s.read ∧ s.sending = false
  script : t.taking = true → Script s linked (t.written ++ t.down.rest) (t.inbound ++ behind)

namespace Fed
variable {s s' : Source} {linked linked' : Bool} {behind behind' new : List StreamIn} {t t' : Task}

/-- A task that has not begun. -/
theorem start (id : UInt32) (credited session : Bool) (phase : Phase) (h : Script s linked [] behind) :
    Fed s linked behind (.new id credited session phase) where
  written := List.nil_prefix
  shut h := by cases h
  script _ := h

theorem congr (h : Fed s linked behind t) (hw : t'.written = t.written) (hs : t'.shut = t.shut)
    (hd : t'.down = t.down) (hi : t'.inbound = t.inbound) (ht : t'.taking = true → t.taking = true) :
    Fed s linked behind t' where
  written := hw ▸ h.written
  shut := by
    rw [hs, hw]
    exact h.shut
  script hgo := by
    rw [hw, hd, hi]
    exact h.script (ht hgo)

/-- A task that takes nothing more keeps what it wrote. -/
theorem stopped (h : Fed s linked behind t) (hw : t'.written = t.written) (hs : t'.shut = t.shut)
    (ht : t'.taking = false) : Fed s linked' behind' t' where
  written := hw ▸ h.written
  shut := by
    rw [hs, hw]
    exact h.shut
  script hgo := by
    rw [ht] at hgo
    cases hgo

/-- What the peer sends comes behind everything else. -/
theorem sends (h : Fed s linked behind t) (hs : s.Sends new s') :
    Fed s' linked (behind ++ if linked then new else []) t where
  written := h.written.trans (Script.sends_prefix hs)
  shut hshut := by
    obtain ⟨hw, hstop⟩ := h.shut hshut
    obtain ⟨hr, hstop'⟩ := Script.sends_read hs hstop
    exact ⟨hw.trans hr.symm, hstop'⟩
  script hgo := by
    rw [← List.append_assoc]
    exact (h.script hgo).sends hs

/-- The engine's link to the task is gone: what is on its way is lost. -/
theorem cut (h : Fed s linked (behind ++ behind') t) : Fed s false behind t where
  written := h.written
  shut := h.shut
  script hgo := by
    have hscript := h.script hgo
    rw [← List.append_assoc] at hscript
    exact hscript.cut

/-- A message reaches the queue of the task. -/
theorem push {msg : StreamIn} (h : Fed s linked (msg :: behind) t) :
    Fed s linked behind (Engine.pushIn msg t) := by
  unfold Engine.pushIn
  split
  · rename_i hend
    exact h.stopped rfl rfl (by simp [Task.taking, hend])
  · refine ⟨h.written, h.shut, fun hgo => ?_⟩
    rw [List.append_assoc]
    exact h.script hgo

theorem taking_of {d : Down} (hp : t.phase = .pumping) (hd : t.down = d) (h1 : d ≠ .done)
    (h2 : d ≠ .resetting) :
    t.taking = true := by
  have hend := Task.ended_of_pumping hp
  subst hd
  cases hdown : t.down <;> simp_all [Task.taking]

theorem taking_same (hend : t.ended = false) (hd : t'.down = t.down) (ht : t'.taking = true) :
    t.taking = true := by
  simp only [Task.taking, Bool.and_eq_true] at ht ⊢
  rw [hend, ← hd]
  exact ⟨rfl, ht.2⟩

/-- Bytes move from the payload in hand to the socket. -/
theorem wrote (h : Fed s linked behind t) (ht : t.taking = true) (hw : t.written <+: t'.written)
    (hall : t'.written ++ t'.down.rest = t.written ++ t.down.rest) (hi : t'.inbound = t.inbound)
    (hs : t'.shut = t.shut) : Fed s linked behind t' := by
  have hscript := h.script ht
  rw [← hall, ← hi] at hscript
  have hpre : t'.written <+: s.read := by
    refine List.IsPrefix.trans ?_ hscript.part
    rw [List.append_assoc]
    exact List.prefix_append _ _
  refine ⟨hpre, fun hshut => ?_, fun _ => hscript⟩
  rw [hs] at hshut
  obtain ⟨hread, hstop⟩ := h.shut hshut
  rw [hread] at hw
  exact ⟨hpre.eq_of_length_le hw.length_le, hstop⟩

/-- The rest of the payload in hand is written. -/
theorem wroteRest (h : Fed s linked behind t) {payload rest : Bytes} (hp : t.phase = .pumping)
    (hd : t.down = .writing payload rest) (hw : t'.written = t.written ++ rest) (hr : t'.down.rest = [])
    (hi : t'.inbound = t.inbound) (hs : t'.shut = t.shut) : Fed s linked behind t' := by
  refine h.wrote (taking_of hp hd (by simp) (by simp)) ?_ ?_ hi hs
  · rw [hw]
    exact List.prefix_append _ _
  · rw [hw, hr, hd, List.append_nil]
    rfl

theorem finish (h : Fed s linked behind t) : Fed s linked behind t.finish :=
  h.stopped rfl rfl rfl

/-- What a step of a task does to its half from the peer. -/
theorem moves {m : PumpMove} {orphan : Bool} (h : Fed s linked behind t) (hm : t.Moves orphan m) :
    Fed s linked behind m.task := by
  have hend := Task.moves_running hm
  -- a step that leaves this half alone
  have hkeep : ∀ t' : Task, t'.written = t.written → t'.shut = t.shut → t'.down = t.down →
      t'.inbound = t.inbound → Fed s linked behind t' :=
    fun t' hw hs hd hi => h.congr hw hs hd hi (taking_same hend hd)
  have htaking : ∀ d : Down, t.phase = .pumping → t.down = d → d ≠ .done → d ≠ .resetting → t.taking = true :=
    fun d hp hd h1 h2 => taking_of hp hd h1 h2
  cases hm with
  | stop frames ha hf => exact h.finish
  | refused chunk hp hu => exact h.stopped rfl rfl rfl
  | recvData payload inbound hp hd hi =>
    have hscript := h.script (htaking _ hp hd (by simp) (by simp))
    have hrest : t.down.rest = [] := by rw [hd]; rfl
    rw [hrest, hi, List.append_nil, List.cons_append] at hscript
    exact ⟨h.written, h.shut, fun _ => hscript.take⟩
  | recvClosed inbound hp hd hi =>
    have hscript := h.script (htaking _ hp hd (by simp) (by simp))
    have hrest : t.down.rest = [] := by rw [hd]; rfl
    rw [hrest, hi, List.append_nil, List.cons_append] at hscript
    obtain ⟨hwhole, hstop⟩ := hscript.whole rfl
    rw [show flow (.closed :: (inbound ++ behind)) = [] from rfl, List.append_nil] at hwhole
    exact ⟨h.written, fun _ => ⟨hwhole, hstop⟩, fun ht => by simp [Task.taking, Task.goto] at ht⟩
  | recvNone hp hd hi ho => exact h.stopped rfl rfl (by simp [Task.taking, Task.goto])
  | wrote payload rest n hp hd hn =>
    refine h.wrote (htaking _ hp hd (by simp) (by simp)) (List.prefix_append _ _) ?_ rfl rfl
    rw [hd]
    simp [Down.rest, Task.goto]
  | wroteAll payload rest hp hd => exact h.wroteRest hp hd rfl rfl rfl rfl
  | counted payload rest hp hd => exact h.wroteRest hp hd rfl rfl rfl rfl
  | reporting payload rest hp hd => exact h.wroteRest hp hd rfl rfl rfl rfl
  | wroteReported payload rest hp hd => exact h.wroteRest hp hd rfl rfl rfl rfl
  | wroteStop payload rest hp hd hc =>
    have hall : Fed s linked behind { t with written := t.written ++ rest, down := .receiving } :=
      h.wroteRest hp hd rfl rfl rfl rfl
    exact hall.stopped rfl rfl rfl
  | downResetting payload rest hp hd => exact h.stopped rfl rfl (by simp [Task.taking, Task.goto])
  | reported hp hd =>
    have hscript := h.script (htaking _ hp hd (by simp) (by simp))
    rw [hd] at hscript
    exact ⟨h.written, h.shut, fun _ => hscript⟩
  | _ => exact hkeep _ rfl rfl rfl rfl

end Fed

/-- A stream whose peer is `s`, with the messages `far` on their way. An engine without an entry of
the stream drops them. -/
def View.Feed (s : Source) (v : View) (far : List StreamIn) : Prop :=
  ∀ t, v.task = some t → Fed s v.entry (v.wait ++ if v.entry then far else []) t

namespace View
variable {order initiates : Bool} {i : UInt32} {v v' : View} {inp w : List Frame} {s s' : Source}
  {far new : List StreamIn} {t : Task}

theorem Feed.sends (h : v.Feed s far) (hs : s.Sends new s') : v.Feed s' (far ++ new) := by
  intro t ht
  have hfed := (h t ht).sends hs
  cases he : v.entry with
  | true =>
    rw [he, if_pos rfl, if_pos rfl, List.append_assoc] at hfed
    exact hfed
  | false =>
    rw [he, if_neg Bool.false_ne_true, if_neg Bool.false_ne_true, List.append_nil] at hfed
    exact hfed

/-- A message the engine hands over comes behind what the task has. -/
theorem feed_handed {msg : StreamIn} (hw : v.wait = [])
    (h : Fed s v.entry (msg :: if v.entry then far else []) t) (hv : Handed v t msg v') : v'.Feed s far := by
  cases hv with
  | now =>
    intro u hu
    cases hu
    rw [hw]
    exact h.push
  | later hc ha =>
    intro u hu
    cases hu
    exact h

/-- What a step of a stream takes from its peer. -/
theorem receives (hs : ViewStep order initiates i v inp v' w) (hi : i ≠ controlId)
    (h : v.Feed s (items i inp ++ far))
    (hnew : v.task = none → v'.task ≠ none → v.wait = [] ∧ Script s true [] far) : v'.Feed s far := by
  -- what the stream reads is nothing to its pump
  have hnone : ∀ f : Frame, inp = [f] → f.item i = none → v.Feed s far := by
    intro f hf hn
    rw [hf, items_single hn, List.nil_append] at h
    exact h
  -- a task that starts here has nothing behind it but what is on its way
  have hstart {credited session : Bool} {phase : Phase} (hn : v.task = none)
      (ht : v'.task = some (.new i credited session phase)) (hw : v'.wait = v.wait)
      (he : v'.entry = true) : v'.Feed s far := by
    obtain ⟨hwait, hscript⟩ := hnew hn (by simp [ht])
    intro t ht'
    obtain rfl := Option.some.inj (ht.symm.trans ht')
    refine Fed.start _ _ _ _ ?_
    rw [hw, hwait, he, if_pos rfl]
    exact hscript
  have hcut : v.entry = false → v.Feed s far := by
    intro he t ht
    have hfed := h t ht
    rw [he, if_neg Bool.false_ne_true] at hfed ⊢
    exact hfed
  cases hs with
  | stay => exact h
  | gone =>
    intro t ht
    have hfed := (h t ht).cut
    rw [← List.append_nil v.wait] at hfed
    exact hfed
  | openIgnored target => exact hnone _ rfl rfl
  | lost f he => exact hcut he
  | windowIgnored t f bytes hf => exact hnone f rfl (item_windowFor hi hf)
  | connected session target hs' hn => exact hstart hn rfl rfl rfl
  | connectedPlain target hs' hn => exact hstart hn rfl rfl rfl
  | opened c session target hs' hn => exact hstart hn rfl rfl rfl
  | openRefused target reason hs' hn =>
    intro t ht
    rw [show v.task = some t from ht] at hn
    cases hn
  | pump t m orphan ht hm =>
    intro u hu
    cases hu
    exact (h t ht).moves hm
  | delivered v' t payload ht he hw hx hv =>
    have hfed := h t ht
    have hitem : items i [.data i payload] = [.data payload] := by simp [items, Frame.item]
    rw [hw, he, if_pos rfl, hitem, List.nil_append, List.singleton_append] at hfed
    have hpending : Fed s true (.data payload :: far) (Engine.countPending payload t) := by
      unfold Engine.countPending
      split
      · exact hfed.congr rfl rfl rfl rfl id
      · exact hfed
    refine feed_handed hw ?_ hv
    rw [he, if_pos rfl]
    exact hpending
  | closed v' t ht he hw hv =>
    have hfed := h t ht
    have hitem : items i [.close i none] = [.closed] := by simp [items, Frame.item, streamInForClose]
    rw [hw, he, if_pos rfl, hitem, List.nil_append, List.singleton_append] at hfed
    refine feed_handed hw ?_ hv
    rw [he, if_pos rfl]
    exact hfed
  | aborted v' t reason ht he hw hv =>
    have hfed := h t ht
    have hitem : items i [.close i (some reason)] = [.aborted] := by
      simp [items, Frame.item, streamInForClose]
    rw [hw, he, if_pos rfl, hitem, List.nil_append] at hfed
    have hcredit : Fed s false [.aborted] (Engine.closeCredit t) :=
      hfed.cut.congr rfl rfl rfl rfl id
    exact feed_handed (v := { v with entry := false }) hw hcredit hv
  | credit t f bytes hf ht =>
    intro u hu
    cases hu
    exact (hnone f rfl (item_windowFor hi hf) t ht).congr rfl rfl rfl rfl id
  | unblocked t msg ht hw =>
    intro u hu
    cases hu
    have hfed := h t ht
    rw [hw, List.singleton_append] at hfed
    exact hfed.push
  | joined t t' ht hp ht' =>
    intro u hu
    cases hu
    rcases ht' with rfl | rfl
    · exact (h t ht).stopped rfl rfl rfl
    · exact (h t ht).stopped rfl rfl rfl
  | pollCtrl f ctrl hq => exact h
  | pollOut f out hq => exact h

/-- The half of a stream towards its peer; `fresh` says whether a stream that is not there may still
come. -/
def source (v : View) (fresh : Bool) : Source :=
  match v.task with
  | some t => t.source
  | none => ⟨[], [], fresh⟩

theorem source_some (h : v.task = some t) (fresh : Bool) : v.source fresh = t.source := by
  rw [source, h]

theorem source_none (h : v.task = none) (fresh : Bool) : v.source fresh = ⟨[], [], fresh⟩ := by
  rw [source, h]

/-- Only a stream with a task has messages in the pumps' queue or waiting for it, and only one without
is refused. -/
structure Apart (i : UInt32) (v : View) : Prop where
  wait : v.task = none → v.wait = []
  out : v.task = none → items i v.out = []
  ctrl : v.task ≠ none → items i v.ctrl = []

theorem Apart.some (ht : v.task = some t) (hc : items i v.ctrl = []) : v.Apart i where
  wait hn := by
    rw [ht] at hn
    cases hn
  out hn := by
    rw [ht] at hn
    cases hn
  ctrl _ := hc

theorem Apart.step (h : v.Apart i) (hs : ViewStep order initiates i v inp v' w)
    (hnew : v.task = none → v'.task ≠ none → items i v.ctrl = []) : v'.Apart i := by
  have hctrl : ∀ t, v.task = Option.some t → items i v.ctrl = [] := by
    intro t ht
    apply h.ctrl
    rw [ht]
    exact Option.some_ne_none t
  have hhanded : ∀ (u : View) (t : Task) (msg : StreamIn), v.task ≠ none → u.ctrl = v.ctrl →
    Handed u t msg v' →
      v'.Apart i := by
    intro u t msg hne hc hv
    obtain ⟨t', ht', -, -, hc', -⟩ := handed_task hv
    exact .some ht' (by rw [hc', hc]; exact h.ctrl hne)
  cases hs with
  | connected session target hs' hn =>
    refine .some rfl ?_
    rw [items_append, hnew hn (by simp)]
    rfl
  | connectedPlain target hs' hn => exact .some rfl (hnew hn (by simp))
  | opened c session target hs' hn => exact .some rfl (hnew hn (by simp))
  | openRefused target reason hs' hn => exact ⟨h.wait, h.out, fun hne => absurd hn hne⟩
  | pump t m orphan ht => exact .some rfl (hctrl t ht)
  | delivered v' t payload ht he hw hx hv => exact hhanded v _ _ (by rw [ht]; simp) rfl hv
  | closed v' t ht he hw hv => exact hhanded v _ _ (by rw [ht]; simp) rfl hv
  | aborted v' t reason ht he hw hv => exact hhanded { v with entry := false } _ _ (by rw [ht]; simp) rfl hv
  | credit t f bytes hf ht => exact .some rfl (hctrl t ht)
  | unblocked t msg ht => exact .some rfl (hctrl t ht)
  | joined t t' ht => exact .some rfl (hctrl t ht)
  | pollCtrl f ctrl hq =>
    refine ⟨h.wait, h.out, fun hne => ?_⟩
    have hc := h.ctrl hne
    rw [hq, items_cons, List.append_eq_nil_iff] at hc
    exact hc.2
  | pollOut f out hq =>
    refine ⟨h.wait, fun hn => ?_, h.ctrl⟩
    have ho := h.out hn
    rw [hq, items_cons, List.append_eq_nil_iff] at ho
    exact ho.2
  | gone => exact ⟨h.wait, h.out, h.ctrl⟩
  | _ => exact h

theorem sends_fresh {fresh fresh' : Bool} (h : fresh' = true → fresh = true) :
    Source.Sends ⟨[], [], fresh⟩ [] ⟨[], [], fresh'⟩ := by
  cases fresh' with
  | true =>
    rw [h rfl]
    exact .same
  | false => exact .stop [] [] (fun hne => absurd rfl hne) [] (.inl rfl)

/-- A stream that is not there may stop to be awaited. -/
theorem source_mono (v : View) {fresh fresh' : Bool} (h : fresh' = true → fresh = true) :
    (v.source fresh).Sends [] (v.source fresh') := by
  cases ht : v.task with
  | some t =>
    rw [source_some ht, source_some ht]
    exact .same
  | none =>
    rw [source_none ht, source_none ht]
    exact sends_fresh h

theorem source_pushIn (msg : StreamIn) (t : Task) : (Engine.pushIn msg t).source = t.source := by
  unfold Engine.pushIn
  split <;> rfl

theorem source_handed {msg : StreamIn} (h : Handed v t msg v') :
    ∃ t', v'.task = some t' ∧ t'.source = t.source ∧ v'.ctrl = v.ctrl ∧ v'.out = v.out := by
  cases h with
  | now => exact ⟨_, rfl, source_pushIn msg t, rfl, rfl⟩
  | later => exact ⟨t, rfl, rfl, rfl, rfl⟩

/-- What a step of a stream sends to its peer, behind the messages on the wire and in the queues. -/
theorem sends (hs : ViewStep order initiates i v inp v' w) (hi : i ≠ controlId)
    (hid : ∀ t, v.task = some t → t.id = i) (h : v.Apart i) (fresh fresh' : Bool)
    (hnew : v.task = none → v'.task ≠ none → fresh = true)
    (hold : v.task = none → v'.task = none → fresh' = true → fresh = true)
    (href : initiates = false → v'.task = none → ∀ target, inp = [.open i target] → fresh' = false)
    (wire : List Frame) :
    ∃ new, items i (wire ++ w ++ v'.ctrl ++ v'.out) = items i (wire ++ v.ctrl ++ v.out) ++ new ∧
      (v.source fresh).Sends new (v'.source fresh') ∧
      (v.task = none → new = [] ∨ (initiates = false ∧ v'.task = none ∧
        ∃ target, inp = [.open i target])) := by
  -- a step that keeps the half and the messages
  have hkeep : ∀ t t' : Task, v.task = Option.some t → v'.task = Option.some t' → t'.source = t.source →
      v'.ctrl = v.ctrl → v'.out = v.out → w = [] →
      ∃ new, items i (wire ++ w ++ v'.ctrl ++ v'.out) = items i (wire ++ v.ctrl ++ v.out) ++ new ∧
        (v.source fresh).Sends new (v'.source fresh') ∧
        (v.task = none → new = [] ∨ (initiates = false ∧ v'.task = none ∧
          ∃ target, inp = [.open i target])) := by
    intro t t' ht ht' hs' hc ho hw
    refine ⟨[], by rw [hw, hc, ho, List.append_nil, List.append_nil], ?_, fun _ => .inl rfl⟩
    rw [source_some ht, source_some ht', hs']
    exact .same
  -- a step that keeps the task and the messages
  have hstay : v'.task = v.task → items i (wire ++ w ++ v'.ctrl ++ v'.out) =
    items i (wire ++ v.ctrl ++ v.out) →
      ∃ new, items i (wire ++ w ++ v'.ctrl ++ v'.out) = items i (wire ++ v.ctrl ++ v.out) ++ new ∧
        (v.source fresh).Sends new (v'.source fresh') ∧
        (v.task = none → new = [] ∨ (initiates = false ∧ v'.task = none ∧
          ∃ target, inp = [.open i target])) := by
    intro ht hitems
    refine ⟨[], by rw [hitems, List.append_nil], ?_, fun _ => .inl rfl⟩
    cases hv : v.task with
    | some t =>
      rw [source_some hv, source_some (ht.trans hv)]
      exact .same
    | none =>
      rw [source_none hv, source_none (ht.trans hv)]
      exact sends_fresh (hold hv (ht.trans hv))
  -- a stream that begins
  have hbegin : ∀ t, v.task = none → v'.task = Option.some t → t.source = ⟨[], [], true⟩ →
      items i (wire ++ w ++ v'.ctrl ++ v'.out) = items i (wire ++ v.ctrl ++ v.out) →
      ∃ new, items i (wire ++ w ++ v'.ctrl ++ v'.out) = items i (wire ++ v.ctrl ++ v.out) ++ new ∧
        (v.source fresh).Sends new (v'.source fresh') ∧
        (v.task = none → new = [] ∨ (initiates = false ∧ v'.task = none ∧
          ∃ target, inp = [.open i target])) := by
    intro t hn ht hsrc hitems
    refine ⟨[], by rw [hitems, List.append_nil], ?_, fun _ => .inl rfl⟩
    rw [source_none hn, source_some ht, hsrc, hnew hn (by rw [ht]; exact Option.some_ne_none t)]
    exact .same
  cases hs with
  | stay => exact hstay rfl (by rw [List.append_nil])
  | gone => exact hstay rfl (by rw [List.append_nil])
  | openIgnored => exact hstay rfl (by rw [List.append_nil])
  | lost => exact hstay rfl (by rw [List.append_nil])
  | windowIgnored => exact hstay rfl (by rw [List.append_nil])
  | connected session target hs' hn =>
    refine hbegin _ hn rfl rfl ?_
    have hopen : items i [Frame.open i target] = [] := rfl
    simp only [items_append, hopen, List.append_nil]
  | connectedPlain target hs' hn => exact hbegin _ hn rfl rfl (by rw [List.append_nil])
  | opened c session target hs' hn => exact hbegin _ hn rfl rfl (by rw [List.append_nil])
  | openRefused target reason hs' hn =>
    refine ⟨[.aborted], ?_, ?_, fun _ => .inr ⟨hs', hn, target, rfl⟩⟩
    · have hclose : items i [Frame.close i (some reason)] = [.aborted] := by
        simp [items, Frame.item, streamInForClose]
      simp only [items_append, hclose, h.out hn, List.append_nil, List.append_assoc]
    · have hn' : ({ v with ctrl := v.ctrl ++ [.close i (Option.some reason)] } : View).task = none := hn
      rw [source_none hn, source_none hn', href hs' hn target rfl]
      exact .stop [] [] (fun hne => absurd rfl hne) [.aborted] (.inr rfl)
  | pump t m orphan ht hm =>
    refine ⟨items i m.frames, ?_, ?_, fun hn => ?_⟩
    · simp only [items_append, List.append_nil, List.append_assoc]
    · rw [source_some ht, source_some rfl]
      exact Task.source_moves hm (hid t ht) hi
    · rw [ht] at hn
      cases hn
  | delivered v' t payload ht he hw hx hv =>
    obtain ⟨t', ht', hsrc, hc, ho⟩ := source_handed hv
    refine hkeep t t' ht ht' (hsrc.trans ?_) hc ho rfl
    unfold Engine.countPending
    split <;> rfl
  | closed v' t ht he hw hv =>
    obtain ⟨t', ht', hsrc, hc, ho⟩ := source_handed hv
    exact hkeep t t' ht ht' hsrc hc ho rfl
  | aborted v' t reason ht he hw hv =>
    obtain ⟨t', ht', hsrc, hc, ho⟩ := source_handed hv
    exact hkeep t t' ht ht' hsrc hc ho rfl
  | credit t f bytes hf ht => exact hkeep t _ ht rfl rfl rfl rfl rfl
  | unblocked t msg ht => exact hkeep t _ ht rfl (source_pushIn msg t) rfl rfl rfl
  | joined t t' ht hp ht' =>
    refine hkeep t t' ht rfl ?_ rfl rfl rfl
    have hend : t.ended = true := by rw [Task.ended, hp]
    rcases ht' with rfl | rfl
    · exact Task.source_congr hend.symm rfl rfl
    · exact Task.source_congr hend.symm rfl rfl
  | pollCtrl f ctrl hq =>
    refine hstay rfl ?_
    rw [hq]
    simp only [List.append_assoc, List.cons_append, List.nil_append]
  | pollOut f out hq hg =>
    refine hstay rfl ?_
    -- the frame passes the control queue, where the stream has no messages
    have hpass : items i v.ctrl = [] ∨ items i [f] = [] := by
      cases hv : v.task with
      | some t =>
        left
        apply h.ctrl
        rw [hv]
        exact Option.some_ne_none t
      | none =>
        right
        have ho := h.out hv
        rw [hq, items_cons, List.append_eq_nil_iff] at ho
        exact ho.1
    rw [hq]
    simp only [items_append, items_cons i out f]
    rcases hpass with hp | hp <;> rw [hp] <;> simp

end View

end CtAgent.Forward
