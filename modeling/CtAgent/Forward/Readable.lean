import CtAgent.Forward.EngineTables
import CtAgent.Forward.FrameCodec
import CtAgent.Forward.Policy

/-! Every frame an engine queues can be read by the peer, as long as the configured target fits. The
reader's bounds are enforced nowhere on the write side: they hold because of what each producer of a
target, a reason or a payload puts in. -/
namespace CtAgent.Forward
open CtAgent.Lib

def TextFits (s : String) : Prop := (utf8 s).length ≤ maxTargetWireLen

/-- The text of a failed dial leaves room for the words in front of it. -/
def PumpEvent.Fits : PumpEvent → Prop
  | .dialFailed why => (utf8 why).length + (utf8 "dial failed: ").length ≤ maxTargetWireLen
  | _ => True

theorem utf8_append (s t : String) : utf8 (s ++ t) = utf8 s ++ utf8 t := by
  simp [utf8]

theorem fits_controls (w id b : UInt32) :
    (helloFrame w).Fits ∧ (swindowFrame b).Fits ∧ (windowFrame id b).Fits ∧ (fcOnFrame id).Fits := by
  refine ⟨?_, ?_, ?_, ?_⟩ <;> simp only [helloFrame, swindowFrame, windowFrame, fcOnFrame, Frame.Fits,
    List.length_append, List.length_cons, List.length_nil, beBytes32_length, maxDataFrameLen] <;> decide

theorem fits_abort (id : UInt32) : (abortFrame id).Fits := by
  change (utf8 "abort").length ≤ maxTargetWireLen
  decide

namespace Task
variable {t : Task} {m : PumpMove} {o : Outbound} {orphan : Bool} {e : PumpEvent}

/-- What a task still has to send fits. -/
structure Fitted (t : Task) : Prop where
  target : ∀ target, t.phase = .spawned target ∨ t.phase = .opening target → TextFits target
  why : ∀ why, t.phase = .refusing why → (PumpEvent.dialFailed why).Fits
  chunk : ∀ chunk, t.up = .credit chunk ∨ t.up = .window chunk ∨ t.up = .room chunk →
    chunk.length ≤ dataChunkLen

theorem Fitted.congr {t' : Task} (h : t.Fitted) (hp : t'.phase = t.phase) (hu : t'.up = t.up) :
    t'.Fitted where
  target := by
    rw [hp]
    exact h.target
  why := by
    rw [hp]
    exact h.why
  chunk := by
    rw [hu]
    exact h.chunk

/-- A task with nothing of its own to send. -/
theorem fitted_of_phase {t' : Task} (h : t.Fitted) (hu : t'.up = t.up)
    (hp : t'.phase = .pumping ∨ t'.phase = .idling) : t'.Fitted where
  target := by
    rintro target (h' | h') <;> rcases hp with hp | hp <;> cases hp.symm.trans h'
  why := by
    rintro why h'
    rcases hp with hp | hp <;> cases hp.symm.trans h'
  chunk := by
    rw [hu]
    exact h.chunk

/-- A chunk that was read is no longer than a read. -/
theorem fitted_of_chunk {t' : Task} (h : t.Fitted) (hp : t'.phase = t.phase)
    (hu : ∀ chunk, t'.up = .credit chunk ∨ t'.up = .window chunk ∨ t'.up = .room chunk →
      chunk.length ≤ dataChunkLen) : t'.Fitted where
  target := by
    rw [hp]
    exact h.target
  why := by
    rw [hp]
    exact h.why
  chunk := hu

theorem fitted_finish (t : Task) : t.finish.Fitted := by
  refine ⟨?_, ?_, ?_⟩
  · rintro target (h | h) <;> cases h
  · rintro why h
    cases h
  · rintro chunk (h | h | h) <;> cases h

/-- A move after which the task is fitted and whose frames fit. -/
def MoveFits (m : PumpMove) : Prop := m.task.Fitted ∧ ∀ f ∈ m.frames, f.Fits

theorem moveFits_goto (h : t.Fitted) : MoveFits (t.goto []) := ⟨h, by simp [goto]⟩

theorem moveFits_goto_frame {f : Frame} (h : t.Fitted) (hf : f.Fits) : MoveFits (t.goto [f]) :=
  ⟨h, by simpa [goto] using hf⟩

theorem moveFits_stop (t : Task) : MoveFits (t.stop []) := ⟨fitted_finish t, by simp [stop]⟩

theorem moveFits_stop_frame {f : Frame} (hf : f.Fits) : MoveFits (t.stop [f]) :=
  ⟨fitted_finish t, by simpa [stop] using hf⟩

theorem moveFits_sendOrDrop {f : Frame} {sent : List Frame → PumpMove} {waiting : Task}
    (hs : MoveFits (sent [f])) (hw : waiting.Fitted) : MoveFits (t.sendOrDrop o f sent waiting) := by
  cases o with
  | room => exact hs
  | full => exact moveFits_goto hw
  | closed => exact moveFits_stop t

theorem moveFits_sendLater {f : Frame} {sent : List Frame → PumpMove} (hs : MoveFits (sent [f]))
    (h : t.sendLater o f sent = some m) : MoveFits m := by
  cases o with
  | room =>
    cases h
    exact hs
  | full => cases h
  | closed =>
    cases h
    exact moveFits_stop t

theorem fits_idle (id : UInt32) : (idleFrame id).Fits := by
  change (utf8 "idle timeout").length ≤ maxTargetWireLen
  decide

theorem fits_close (id : UInt32) : (Frame.close id none).Fits := by
  change (utf8 "").length ≤ maxTargetWireLen
  decide

theorem fits_dialFailed {why : String} (id : UInt32) (h : (PumpEvent.dialFailed why).Fits) :
    (dialFailedFrame id why).Fits := by
  have hlen : (utf8 ("dial failed: " ++ why)).length ≤ maxTargetWireLen := by
    rw [utf8_append, List.length_append, Nat.add_comm]
    exact h
  exact hlen

theorem moveFits_paid {chunk : Bytes} {t' : Task} (h : t.Fitted) (hp : t'.phase = t.phase)
    (hl : chunk.length ≤ dataChunkLen) (hu : t'.up = .credit chunk ∨ t'.up = t.paid chunk) :
    MoveFits (t'.goto []) := by
  refine moveFits_goto (fitted_of_chunk h hp fun c hc => ?_)
  have hcc : c = chunk := by
    unfold paid at hu
    rcases hu with hu | hu <;> rw [hu] at hc <;> (try split at hc) <;>
      rcases hc with hc | hc | hc <;> cases hc <;> rfl
  exact hcc ▸ hl

theorem moveFits_offer {chunk : Bytes} (h : t.Fitted) (hl : chunk.length ≤ dataChunkLen) :
    MoveFits (t.offer chunk) := by
  unfold offer
  dsimp only
  split
  · split
    · split
      · exact moveFits_paid h rfl hl (.inr rfl)
      · exact moveFits_paid h rfl hl (.inl rfl)
    · exact moveFits_stop _
  · exact moveFits_paid h rfl hl (.inr rfl)

/-- A half that holds no chunk. -/
theorem Fitted.with_up (h : t.Fitted) {u : Up}
    (hu : u = .reading ∨ u = .closing ∨ u = .resetting ∨ u = .done) : { t with up := u }.Fitted := by
  refine fitted_of_chunk h rfl fun chunk hc => ?_
  rcases hu with rfl | rfl | rfl | rfl <;> rcases hc with hc | hc | hc <;> cases hc

theorem moveFits_upStep (h : t.Fitted) (hs : t.upStep o e = some m) : MoveFits m := by
  cases e with
  | read chunk =>
    simp only [upStep] at hs
    split at hs
    next hg =>
      cases hs
      exact moveFits_offer h hg.2.2
    · cases hs
  | eof =>
    simp only [upStep] at hs
    split at hs
    · cases hs
      exact moveFits_sendOrDrop (moveFits_goto_frame (h.with_up (by simp)) (fits_close _))
        (h.with_up (by simp))
    · cases hs
  | readError =>
    simp only [upStep] at hs
    split at hs
    · cases hs
      exact moveFits_sendOrDrop (moveFits_stop_frame (fits_abort _)) (h.with_up (by simp))
    · cases hs
  | credit =>
    simp only [upStep] at hs
    split at hs
    next chunk hu =>
      have hl := h.chunk chunk (.inl hu)
      split at hs
      · split at hs
        · cases hs
          exact moveFits_paid h rfl hl (.inr rfl)
        · cases hs
      · cases hs
        exact moveFits_stop _
    · cases hs
  | take ready =>
    simp only [upStep] at hs
    split at hs
    next chunk hu =>
      have hl := h.chunk chunk (.inr (.inl hu))
      cases hs
      refine ⟨?_, by simp⟩
      cases ready with
      | false => exact h
      | true => exact fitted_of_chunk h rfl (by rintro c (hc | hc | hc) <;> cases hc; exact hl)
    · cases hs
  | poll =>
    simp only [upStep] at hs
    split at hs
    next chunk hu =>
      have hl := h.chunk chunk (.inr (.inl hu))
      cases hs
      exact ⟨fitted_of_chunk h rfl (by rintro c (hc | hc | hc) <;> cases hc; exact hl), by simp⟩
    · cases hs
  | queue =>
    simp only [upStep] at hs
    split at hs
    next chunk hu =>
      have hl := h.chunk chunk (.inr (.inr hu))
      cases hs
      refine ⟨h.with_up (by simp), ?_⟩
      simp only [List.mem_singleton, forall_eq]
      exact hl.trans (by decide)
    · cases hs
      exact moveFits_stop _
    · cases hs
  | upSent =>
    simp only [upStep] at hs
    split at hs
    · exact moveFits_sendLater (moveFits_goto_frame (h.with_up (by simp)) (fits_close _)) hs
    · exact moveFits_sendLater (moveFits_stop_frame (fits_abort _)) hs
    · cases hs
  | upGaveUp =>
    simp only [upStep] at hs
    split at hs
    · cases hs
      exact moveFits_stop _
    · cases hs
      exact moveFits_stop _
    · cases hs
  | _ => cases hs

theorem moveFits_consumed {payload : Bytes} (h : t.Fitted) : MoveFits (t.consumed o payload) := by
  unfold consumed
  dsimp only
  split
  · split
    · exact moveFits_sendOrDrop (moveFits_goto_frame (h.congr rfl rfl) (fits_controls 0 _ _).2.2.1)
        (h.congr rfl rfl)
    · exact moveFits_goto (h.congr rfl rfl)
  · exact moveFits_goto (h.congr rfl rfl)

theorem moveFits_downStep (h : t.Fitted) (hs : t.downStep o orphan e = some m) : MoveFits m := by
  cases e with
  | recv =>
    simp only [downStep] at hs
    split at hs
    · split at hs
      · cases hs
        exact moveFits_goto (h.congr rfl rfl)
      · cases hs
        exact moveFits_goto (h.congr rfl rfl)
      · cases hs
        exact moveFits_stop _
      · split at hs
        · cases hs
          exact moveFits_goto (h.congr rfl rfl)
        · cases hs
    · cases hs
  | write n =>
    simp only [downStep] at hs
    split at hs
    · split at hs
      · split at hs
        · cases hs
          exact moveFits_consumed (h.congr rfl rfl)
        · cases hs
          exact moveFits_goto (h.congr rfl rfl)
      · cases hs
    · cases hs
  | writeError =>
    simp only [downStep] at hs
    split at hs
    · cases hs
      exact moveFits_sendOrDrop (moveFits_stop_frame (fits_abort _)) (h.congr rfl rfl)
    · cases hs
  | downSent =>
    simp only [downStep] at hs
    split at hs
    · refine moveFits_sendLater (moveFits_goto_frame ?_ (fits_controls 0 _ _).2.2.1) hs
      exact h.congr rfl rfl
    · exact moveFits_sendLater (moveFits_stop_frame (fits_abort _)) hs
    · cases hs
  | downGaveUp =>
    simp only [downStep] at hs
    split at hs
    · cases hs
      exact moveFits_stop _
    · cases hs
      exact moveFits_stop _
    · cases hs
  | _ => cases hs

theorem moveFits_pumpStep (h : t.Fitted) (hs : t.pumpStep o orphan e = some m) : MoveFits m := by
  unfold pumpStep at hs
  split at hs
  · cases hs
    exact moveFits_sendOrDrop (moveFits_stop_frame (fits_idle _))
      (fitted_of_phase h rfl (.inr rfl))
  · split at hs
    · cases hs
      exact moveFits_stop _
    · cases hs
  · split at hs
    next hu =>
      cases hs
      exact moveFits_upStep h hu
    · exact moveFits_downStep h hs

theorem moveFits_step (h : t.Fitted) (he : e.Fits) (hs : t.step o orphan e = some m) : MoveFits m := by
  unfold step at hs
  split at hs
  · cases hs
  · cases hs
  · cases hs
    exact moveFits_stop _
  next target hp =>
    cases hs
    have hfit := h.target target (.inl hp)
    refine moveFits_sendOrDrop (moveFits_goto_frame (fitted_of_phase h rfl (.inl rfl)) hfit) ?_
    refine ⟨?_, ?_, h.chunk⟩
    · rintro target' (h' | h') <;> cases h'
      exact hfit
    · rintro why h'
      cases h'
  next target hp =>
    have hfit : (Frame.open t.id target).Fits := h.target target (.inr hp)
    refine moveFits_sendLater (moveFits_goto_frame ?_ hfit) hs
    exact fitted_of_phase h rfl (.inl rfl)
  · cases hs
    exact moveFits_stop _
  · cases hs
    exact moveFits_goto (fitted_of_phase h rfl (.inl rfl))
  next why hp =>
    cases hs
    refine moveFits_sendOrDrop (moveFits_stop_frame (fits_dialFailed _ he)) ?_
    refine ⟨?_, ?_, h.chunk⟩
    · rintro target (h' | h') <;> cases h'
    · rintro why' h'
      cases h'
      exact he
  next why hp =>
    exact moveFits_sendLater (moveFits_stop_frame (fits_dialFailed _ (h.why why hp))) hs
  · cases hs
    exact moveFits_stop _
  · exact moveFits_sendLater (moveFits_stop_frame (fits_idle _)) hs
  · cases hs
    exact moveFits_stop _
  · exact moveFits_pumpStep h hs
  · cases hs

end Task

/-- Neither the configured target nor a refusal of the policy gate is too long. -/
def Side.Fits : Side → Prop
  | .initiate target => TextFits target
  | .accept gate => ∀ target reason, gate target = .error reason → TextFits reason

namespace Engine
variable {cfg : EngineConfig} {s s' : Engine}

/-- Everything queued fits, and so does what the tasks still have to send. -/
structure Fitted (s : Engine) : Prop where
  ctrl : ∀ f ∈ s.ctrl, f.Fits
  out : ∀ f ∈ s.out, f.Fits
  tasks : ∀ t ∈ s.tasks, t.Fitted

theorem fitted_init (cfg : EngineConfig) : (init cfg).Fitted := by
  refine ⟨?_, ?_, ?_⟩
  · intro f hf
    simp only [init] at hf
    split at hf
    · rw [List.mem_singleton] at hf
      exact hf ▸ (fits_controls _ 0 0).1
    · cases hf
  · intro f hf
    cases hf
  · intro t ht
    cases ht

theorem Fitted.ctrlSend (h : s.Fitted) {f : Frame} (hf : f.Fits) : (s.ctrlSend f).Fitted := by
  unfold Engine.ctrlSend
  split
  · exact h
  · split
    · exact { h with }
    · refine ⟨?_, h.out, h.tasks⟩
      intro g hg
      rcases List.mem_append.mp hg with hg | hg
      · exact h.ctrl g hg
      · exact (List.mem_singleton.mp hg) ▸ hf

theorem Fitted.modifyTask (h : s.Fitted) (tid : ℕ) {f : Task → Task} (hf : ∀ t, t.Fitted → (f t).Fitted) :
    (s.modifyTask tid f).Fitted := by
  refine ⟨h.ctrl, h.out, ?_⟩
  intro t ht
  obtain ⟨k, hk⟩ := List.mem_iff_getElem?.mp ht
  simp only [Engine.modifyTask, List.getElem?_modify] at hk
  obtain ⟨u, hu, rfl⟩ := Option.map_eq_some_iff.mp hk
  have hfit := h.tasks u (List.mem_of_getElem? hu)
  split
  · exact hf u hfit
  · exact hfit

/-- Changes of a task that touch neither its phase nor its sending half. -/
theorem Fitted.touchTask (h : s.Fitted) (tid : ℕ) {f : Task → Task}
    (hf : ∀ t, (f t).phase = t.phase ∧ (f t).up = t.up) : (s.modifyTask tid f).Fitted :=
  h.modifyTask tid (fun t ht => ht.congr (hf t).1 (hf t).2)

theorem pushIn_keeps (msg : StreamIn) (t : Task) :
    (pushIn msg t).phase = t.phase ∧ (pushIn msg t).up = t.up := by
  unfold pushIn
  split
  · exact ⟨rfl, rfl⟩
  · exact ⟨rfl, rfl⟩

theorem countPending_keeps (payload : Bytes) (t : Task) :
    (countPending payload t).phase = t.phase ∧ (countPending payload t).up = t.up := by
  unfold countPending
  split
  · exact ⟨rfl, rfl⟩
  · exact ⟨rfl, rfl⟩

theorem Fitted.notify (h : s.Fitted) (tid : ℕ) (msg : StreamIn) : (s.notify tid msg).Fitted := by
  unfold Engine.notify
  split
  · exact h.touchTask tid (pushIn_keeps msg)
  · exact { h with }

theorem Fitted.deliver (h : s.Fitted) (tid : ℕ) (payload : Bytes) : (s.deliver tid payload).2.Fitted := by
  unfold Engine.deliver
  split
  · exact h
  · exact (h.touchTask tid (countPending_keeps payload)).notify tid _

theorem Fitted.removeEntry (h : s.Fitted) (id : UInt32) (tid : ℕ) : (s.removeEntry id tid).Fitted := by
  refine Fitted.touchTask ?_ tid (f := closeCredit) (fun _ => ⟨rfl, rfl⟩)
  exact { h with }

theorem Fitted.abortEntry (h : s.Fitted) (id : UInt32) : (s.abortEntry id).Fitted := by
  unfold Engine.abortEntry
  split
  · exact (h.removeEntry id _).notify _ _
  · exact h

theorem Fitted.reset (h : s.Fitted) (id : UInt32) (why : ResetReason) : (s.reset id why).Fitted := by
  refine Fitted.ctrlSend (Fitted.abortEntry ?_ id) (fits_abort id)
  exact { h with }

theorem Fitted.sendAck (h : s.Fitted) {ack : Option Frame × SessionRecv}
    (hf : ∀ f, ack.1 = some f → f.Fits) : (s.sendAck ack).Fitted := by
  unfold Engine.sendAck
  split
  next f hack =>
    refine Fitted.ctrlSend ?_ (hf f hack)
    exact { h with }
  · exact { h with }

theorem fits_flush {r : SessionRecv} {f : Frame} (h : r.flush.1 = some f) : f.Fits := by
  unfold SessionRecv.flush at h
  dsimp only at h
  split at h
  · cases h
    exact (fits_controls 0 0 _).2.1
  · cases h

theorem fits_received {r : SessionRecv} {bytes : ℕ} {f : Frame} (h : (r.received bytes).1 = some f) :
    f.Fits := by
  unfold SessionRecv.received at h
  split at h
  · cases h
  · dsimp only at h
    split at h
    · exact fits_flush h
    · cases h

theorem Fitted.onData (h : s.Fitted) (id : UInt32) (payload : Bytes) : (s.onData id payload).Fitted := by
  have hack : (s.sendAck (s.recv.received payload.length)).Fitted :=
    h.sendAck (fun f hf => fits_received hf)
  unfold Engine.onData
  dsimp only
  split
  · exact hack
  · split
    · exact hack
    next tid htid =>
      have hd := hack.deliver tid payload
      split
      next hq =>
        rw [hq] at hd
        exact hd
      next hq =>
        rw [hq] at hd
        exact hd.reset id _

theorem Fitted.onClose (h : s.Fitted) (id : UInt32) (reason : Option String) :
    (s.onClose id reason).Fitted := by
  have hs : Fitted { s with pendingFc := s.pendingFc.erase id } := { h with }
  unfold Engine.onClose
  dsimp only
  split
  · exact hs.abortEntry id
  · split
    · exact hs.notify _ _
    · exact hs

theorem Fitted.applyControl (h : s.Fitted) (payload : Bytes) : (s.applyControl payload).2.Fitted := by
  unfold Engine.applyControl
  split
  · exact h
  · exact h
  · split
    · exact h
    · split
      · exact h
      · split
        · split
          · exact h
          · exact h.touchTask _ (fun _ => ⟨rfl, rfl⟩)
        · exact h
  · split
    · exact h
    · exact { h with }
  · exact h

theorem Fitted.grantWindow (h : s.Fitted) (window : Option UInt32) : (s.grantWindow window).Fitted := by
  unfold Engine.grantWindow
  split <;> exact { h with }

theorem Fitted.onControl (h : s.Fitted) (payload : Bytes) : (s.onControl cfg payload).Fitted := by
  unfold Engine.onControl
  split
  · have ha := h.applyControl payload
    split
    all_goals rename_i hq; rw [hq] at ha
    · exact ha
    · split
      · unfold Engine.initiateHello
        dsimp only
        split
        · split
          · exact ha
          · exact { ha with }
        · split
          · exact ha.grantWindow _
          · exact { ha.grantWindow _ with }
      · unfold Engine.acceptHello
        dsimp only
        split
        · exact { ha with }
        · refine Fitted.grantWindow ?_ _
          exact { ha with }
    · unfold Engine.onSWindow
      split
      · exact ha
      · split
        · exact { ha with }
        · exact { ha with }
    · exact ha.reset _ _
    · exact { ha with }
  · exact h

theorem Fitted.spawn (h : s.Fitted) {t : Task} (ht : t.Fitted) : (s.spawn t).Fitted := by
  refine ⟨h.ctrl, h.out, ?_⟩
  intro u hu
  rcases List.mem_append.mp hu with hu | hu
  · exact h.tasks u hu
  · exact (List.mem_singleton.mp hu) ▸ ht

theorem fitted_new (id : UInt32) (credited session : Bool) {phase : Phase}
    (hp : phase = .dialing ∨ phase = .pumping ∨ ∃ target, phase = .spawned target ∧ TextFits target) :
    (Task.new id credited session phase).Fitted where
  target := by
    rintro target h
    rcases hp with rfl | rfl | ⟨target', rfl, ht⟩ <;> rcases h with h | h <;> cases h
    exact ht
  why := by
    rintro why h
    rcases hp with rfl | rfl | ⟨target', rfl, ht⟩ <;> cases h
  chunk := by
    rintro chunk (h | h | h) <;> cases h

theorem Fitted.onOpen (h : s.Fitted) {gate : String → Except String Unit}
    (hg : ∀ target reason, gate target = .error reason → TextFits reason) (id : UInt32) (target : String) :
    (s.onOpen cfg gate id target).Fitted := by
  have hs : Fitted { s with pendingFc := s.pendingFc.erase id, opened := true } := { h with }
  unfold Engine.onOpen
  split
  · exact { h with }
  · dsimp only
    split
    · refine hs.ctrlSend ?_
      change (utf8 maxStreamsReached).length ≤ maxTargetWireLen
      decide
    · split
      next reason hreason => exact hs.ctrlSend (hg target reason hreason)
      · exact hs.spawn (fitted_new id _ _ (.inl rfl))

theorem Fitted.queue (h : s.Fitted) {queued : List Frame} (hq : ∀ f ∈ queued, f.Fits)
    (opening : Option UInt32) (nextId : UInt32) (ended : Option EndReason) :
    Fitted { s with nextId := nextId, ctrl := s.ctrl ++ queued, opening := opening, ended := ended } := by
  refine ⟨?_, h.out, h.tasks⟩
  intro f hf
  rcases List.mem_append.mp hf with hf | hf
  · exact h.ctrl f hf
  · exact hq f hf

theorem Fitted.onConnection (h : s.Fitted) {target : String} (ht : TextFits target) (hend : s.ended = none)
    (hq : s.onConnection cfg target = some s') : s'.Fitted := by
  cases connecting_onConnection hend hq with
  | refused => exact h
  | backlog id => exact { h with }
  | announced id =>
    refine h.queue (fun f hf => ?_) _ _ _
    exact (List.mem_singleton.mp hf) ▸ (fits_controls 0 id 0).2.2.2
  | plain id =>
    have hs : Fitted { s with nextId := bump id } := { h with }
    exact hs.spawn (fitted_new id _ _ (.inr (.inr ⟨target, rfl, ht⟩)))

theorem Fitted.onSendOpen (h : s.Fitted) {target : String} (ht : TextFits target) (hend : s.ended = none)
    (hq : s.onSendOpen target = some s') : s'.Fitted := by
  cases sendingOpen_onSendOpen hend hq with
  | backlog => exact { h with }
  | sent id ho =>
    refine (h.queue (fun f hf => ?_) _ _ _).spawn (fitted_new id _ _ (.inr (.inl rfl)))
    exact (List.mem_singleton.mp hf) ▸ ht

theorem Fitted.onJoin (h : s.Fitted) {tid : ℕ} (hq : s.onJoin tid = some s') : s'.Fitted := by
  have hjoined : (s.modifyTask tid markJoined).Fitted := by
    refine h.modifyTask tid fun t ht => ⟨?_, ?_, ht.chunk⟩
    · rintro target (h' | h') <;> cases h'
    · rintro why h'
      cases h'
  unfold Engine.onJoin at hq
  split at hq
  · cases hq
  split at hq
  · dsimp only at hq
    split at hq
    · cases hq
      exact hjoined
    · split at hq
      · cases hq
        exact { hjoined with }
      · cases hq
        refine Fitted.removeEntry ?_ _ _
        exact { hjoined with }
  · cases hq

theorem Fitted.onUnblock (h : s.Fitted) (hq : s.onUnblock = some s') : s'.Fitted := by
  unfold Engine.onUnblock at hq
  split at hq
  · cases hq
  next tid msg hb =>
    split at hq
    · cases hq
      refine Fitted.touchTask ?_ tid (pushIn_keeps msg)
      exact { h with }
    · cases hq

theorem Fitted.onPump (h : s.Fitted) {tid : ℕ} {e : PumpEvent} (he : e.Fits)
    (hq : s.onPump tid e = some s') : s'.Fitted := by
  obtain ⟨t, m, session, ht, -, hm, -, rfl⟩ := onPump_eq hq
  have hfit := Task.moveFits_step (h.tasks t (List.mem_of_getElem? ht)) he hm
  refine ⟨h.ctrl, ?_, ?_⟩
  · intro f hf
    rcases List.mem_append.mp hf with hf | hf
    · exact h.out f hf
    · exact hfit.2 f hf
  · intro u hu
    rcases List.mem_or_eq_of_mem_set hu with hu | rfl
    · exact h.tasks u hu
    · exact hfit.1

theorem Fitted.onFrame (h : s.Fitted) (hside : cfg.side.Fits) (f : Frame) : (s.onFrame cfg f).Fitted := by
  cases f with
  | data id payload =>
    simp only [Engine.onFrame]
    split
    · exact h.onControl payload
    · exact h.onData id payload
  | close id reason => exact h.onClose id reason
  | «open» id target =>
    simp only [Engine.onFrame]
    split
    · exact h
    next gate hs =>
      rw [hs] at hside
      exact h.onOpen hside id target

theorem Fitted.turn (h : s.Fitted) (hside : cfg.side.Fits) (hend : s.ended = none) {e : EngineEvent}
    (hq : s.turn cfg e = some s') : s'.Fitted := by
  cases turn_cases hq with
  | connection target s' hs hc =>
    rw [hs] at hside
    exact h.onConnection hside hend hc
  | sendOpen target s' hs hc =>
    rw [hs] at hside
    exact h.onSendOpen hside hend hc
  | frame f => exact h.onFrame hside f
  | join tid s' hj => exact h.onJoin hj
  | flush => exact h.sendAck (fun f hf => fits_flush hf)
  | flags => exact { h with }
  | gone => exact { h with }

/-- The standard library's texts of a failed connect are short. -/
def connectErrorFits (_ : Engine) : EngineEvent → Bool
  | .pump _ (.dialFailed why) =>
    decide ((utf8 why).length + (utf8 "dial failed: ").length ≤ maxTargetWireLen)
  | _ => true

theorem fits_of_connectErrorFits {tid : ℕ} {e : PumpEvent} (h : connectErrorFits s (.pump tid e) = true) :
    e.Fits := by
  cases e with
  | dialFailed why =>
    simp only [connectErrorFits, decide_eq_true_eq] at h
    exact h
  | _ => trivial

theorem Fitted.step (h : s.Fitted) (hside : cfg.side.Fits) {e : EngineEvent} {w : List Frame}
    (he : connectErrorFits s e = true) (hq : s.step cfg e = some (s', w)) : s'.Fitted := by
  obtain ⟨hend, hc⟩ := step_cases hq
  rcases hc with ⟨-, -, rfl, -⟩ | ⟨f, ctrl, -, hctrl, rfl, -⟩ | ⟨-, -, rfl, -⟩ | ⟨f, out, -, -, hout, rfl, -⟩ |
    ⟨-, rfl, -⟩ | ⟨-, hu, -⟩ | ⟨tid, pe, rfl, hp, -⟩ | ⟨-, -, ht, -⟩
  · exact { h with }
  · exact ⟨fun g hg => h.ctrl g (hctrl ▸ List.mem_cons_of_mem f hg), h.out, h.tasks⟩
  · exact { h with }
  · exact ⟨h.ctrl, fun g hg => h.out g (hout ▸ List.mem_cons_of_mem f hg), h.tasks⟩
  · exact { h with }
  · exact h.onUnblock hu
  · exact h.onPump (fits_of_connectErrorFits he) hp
  · exact h.turn hside hend ht

/-- The runs of an engine against any peer, with the texts the standard library has. -/
def nextFits (cfg : EngineConfig) : Engine → EngineEvent → Option Engine :=
  guarded (next cfg) connectErrorFits

theorem fitted_reachable (hside : cfg.side.Fits) (hr : Reachable (nextFits cfg) (init cfg) s) :
    s.Fitted := by
  refine reachable_invariant (P := Fitted) (fun u e v hu hv => ?_) (fitted_init cfg) hr
  obtain ⟨he, hv⟩ := guarded_eq_some.mp hv
  simp only [Engine.next, Option.map_eq_some_iff, Prod.exists] at hv
  obtain ⟨v', w, hstep, rfl⟩ := hv
  exact hu.step hside he hstep

/-- What is handed to the writer: the two queues it takes from. -/
def WritesReadable (cfg : EngineConfig) : Prop :=
  ∀ s, Reachable (nextFits cfg) (init cfg) s → ∀ f ∈ s.ctrl ++ s.out, f.Readable

theorem writesReadable_of_fits (hside : cfg.side.Fits) : WritesReadable cfg := by
  intro s hr f hf
  have hfit := fitted_reachable hside hr
  rw [readable_iff_fits]
  rcases List.mem_append.mp hf with hf | hf
  · exact hfit.ctrl f hf
  · exact hfit.out f hf

/-- The events up to the first Open, which a connection asks for before the peer has said anything. -/
def firstOpen (fcEnabled : Bool) : List EngineEvent :=
  (if fcEnabled then [.sessionUp, .helloWait] else []) ++ [.connection, .pump 0 .start]

/-- They put the Open into the queue, whatever the target. -/
theorem firstOpen_out (target : String) {maxStreams : ℕ} (hmax : 1 ≤ maxStreams) (fcEnabled : Bool)
    (window : ℕ) :
    (run (nextFits ⟨.initiate target, maxStreams, fcEnabled, window⟩)
        (init ⟨.initiate target, maxStreams, fcEnabled, window⟩) (firstOpen fcEnabled)).map Engine.out =
      some [.open 1 target] := by
  have hroom : ¬ maxStreams ≤ 0 := by omega
  cases fcEnabled <;>
    simp [run, firstOpen, nextFits, guarded, connectErrorFits, next, step, turn, init, onConnection,
      hroom, freeId, spawn, onPump, Task.step, Task.new, outbound, channelCap, Task.sendOrDrop, Task.goto,
      useWindow]

end Engine

/-- The engine of a mapping, as its member runs it. -/
def initiateConfig (spec : ForwardSpec) (maxStreams : Option String) (fcEnabled : Bool) (window : ℕ) :
    EngineConfig :=
  ⟨.initiate spec.target, maxStreamsFromEnv maxStreams, fcEnabled, window⟩

/-- The engine of the accepting member, with its allowlist and its second grant. -/
def acceptConfig (allow nonLoopback maxStreams : Option String) (fcEnabled : Bool) (window : ℕ) :
    EngineConfig :=
  ⟨.accept (acceptForwardRequestWith allow nonLoopback), maxStreamsFromEnv maxStreams, fcEnabled, window⟩

theorem fits_acceptConfig (allow nonLoopback maxStreams : Option String) (fcEnabled : Bool)
    (window : ℕ) : (acceptConfig allow nonLoopback maxStreams fcEnabled window).side.Fits := by
  intro target reason h
  have hmem := decideForward_reason h
  have hall : ∀ r ∈ [offReason, notATargetReason, notListedReason, notLoopbackReason],
      (utf8 r).length ≤ maxTargetWireLen := by decide
  exact hall reason hmem

theorem fits_of_writesReadable {spec : ForwardSpec} {maxStreams : Option String} {fcEnabled : Bool}
    {window : ℕ} (h : Engine.WritesReadable (initiateConfig spec maxStreams fcEnabled window)) :
    (utf8 spec.target).length ≤ maxTargetWireLen := by
  have hout := Engine.firstOpen_out spec.target (maxStreamsFromEnv_pos maxStreams) fcEnabled window
  obtain ⟨s, hs, hso⟩ := Option.map_eq_some_iff.mp hout
  have hread := h s ⟨_, hs⟩ (.open 1 spec.target) (by simp [hso])
  exact (readable_iff_fits _).mp hread

/-- Everything both engines hand to their writers is read by the other side as it was written exactly
when the mapping's target is no longer than the reader takes. -/
theorem frames_readable_iff {raw : String} {spec : ForwardSpec}
    (_ : parseForwardSpec raw = .ok spec) (allow nonLoopback : Option String)
    (maxStreams : Option String × Option String) (fcEnabled : Bool × Bool) (window : ℕ × ℕ) :
    (Engine.WritesReadable (initiateConfig spec maxStreams.1 fcEnabled.1 window.1) ∧
      Engine.WritesReadable (acceptConfig allow nonLoopback maxStreams.2 fcEnabled.2 window.2)) ↔
    (utf8 spec.target).length ≤ maxTargetWireLen := by
  refine ⟨fun h => fits_of_writesReadable h.1, fun h => ⟨?_, ?_⟩⟩
  · exact Engine.writesReadable_of_fits h
  · exact Engine.writesReadable_of_fits (fits_acceptConfig allow nonLoopback maxStreams.2 fcEnabled.2 window.2)

def sampleSpec : ForwardSpec := ⟨⟨.v4 ⟨127, 0, 0, 1⟩, 15432, 0⟩, "db:5432"⟩

theorem frames_readable_sample :
    Engine.WritesReadable (initiateConfig sampleSpec none true 0) ∧
      Engine.WritesReadable (acceptConfig (some "db:5432") none none true 0) := by
  have hspec : parseForwardSpec "127.0.0.1:15432=db:5432" = .ok sampleSpec := by decide +kernel
  refine (frames_readable_iff hspec (some "db:5432") none (none, none) (true, true) (0, 0)).mpr ?_
  decide +kernel

/-- A target of `n` letters. -/
def lettersSpec (n : ℕ) : ForwardSpec :=
  ⟨⟨.v4 ⟨127, 0, 0, 1⟩, 0, 0⟩, String.ofList (List.replicate n 'a')⟩

theorem parse_lettersSpec (n : ℕ) :
    parseForwardSpec ("127.0.0.1:0=" ++ (lettersSpec (n + 1)).target) = .ok (lettersSpec (n + 1)) := by
  have hsplit : splitOnce '=' ("127.0.0.1:0=" ++ (lettersSpec (n + 1)).target) =
      some ("127.0.0.1:0", (lettersSpec (n + 1)).target) := by
    simp [splitOnce, lettersSpec]
  have htrim : trim (lettersSpec (n + 1)).target = (lettersSpec (n + 1)).target := by
    have ha : isWhiteSpace 'a' = false := by decide
    simp [trim, lettersSpec, ha]
  have hne : (lettersSpec (n + 1)).target ≠ "" := by
    intro h
    have hlist := congrArg String.toList h
    simp [lettersSpec] at hlist
  have haddr : SocketAddr.parse (trim "127.0.0.1:0") = some ⟨.v4 ⟨127, 0, 0, 1⟩, 0, 0⟩ := by decide +kernel
  have hloop : (IpAddr.v4 ⟨127, 0, 0, 1⟩).isLoopback = true := by decide
  simp only [parseForwardSpec, hsplit, haddr, htrim, hloop, hne]
  rfl

theorem lettersSpec_length (n : ℕ) : (utf8 (lettersSpec n).target).length = n := by
  have ha : 'a'.utf8Size = 1 := by decide
  simp [lettersSpec, utf8_ofList, List.length_flatMap, ha]

/-- A target one byte too long is accepted by the parser, and its Open is one the peer refuses. -/
theorem long_target_unreadable :
    parseForwardSpec ("127.0.0.1:0=" ++ (lettersSpec 2049).target) = .ok (lettersSpec 2049) ∧
      ¬ Engine.WritesReadable (initiateConfig (lettersSpec 2049) none true 0) := by
  refine ⟨parse_lettersSpec 2048, fun h => ?_⟩
  have hfits := fits_of_writesReadable h
  rw [lettersSpec_length] at hfits
  exact absurd hfits (by decide)

end CtAgent.Forward
