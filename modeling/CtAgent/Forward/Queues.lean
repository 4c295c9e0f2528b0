import CtAgent.Forward.SessionTraffic

/-! What the steps of an engine put on its two queues and take from them, and what it tells its peer
there. -/
namespace CtAgent.Forward
open CtAgent.Lib

/-- What an engine with these settings may write. -/
def Frame.From (cfg : EngineConfig) : Frame → Prop
  | .data id payload =>
    id = controlId →
      match parseControl payload with
      | some (.hello window) => cfg.fcEnabled = true ∧ window = some (UInt32.ofNat cfg.window)
      | some (.fcOn _) => cfg.initiates = true
      | _ => True
  | _ => True

theorem from_hello (cfg : EngineConfig) (hfc : cfg.fcEnabled = true) :
    (helloFrame (UInt32.ofNat cfg.window)).From cfg := by
  have h := parseControl_hello (UInt32.ofNat cfg.window)
  intro _
  simp only [helloFrame, Frame.payload] at h
  rw [h]
  exact ⟨hfc, rfl⟩

theorem from_swindow (cfg : EngineConfig) (bytes : UInt32) : (swindowFrame bytes).From cfg := by
  have h := parseControl_swindow bytes
  intro _
  simp only [swindowFrame, Frame.payload] at h
  rw [h]
  trivial

theorem from_window (cfg : EngineConfig) (id bytes : UInt32) : (windowFrame id bytes).From cfg := by
  have h := parseControl_window id bytes
  intro _
  simp only [windowFrame, Frame.payload] at h
  rw [h]
  trivial

theorem from_fcOn {cfg : EngineConfig} (hi : cfg.initiates = true) (id : UInt32) :
    (fcOnFrame id).From cfg := by
  have h := parseControl_fcOn id
  intro _
  simp only [fcOnFrame, Frame.payload] at h
  rw [h]
  exact hi

namespace Engine
variable {cfg : EngineConfig} {s s' : Engine} {e : EngineEvent} {w : List Frame}

/-- What a step adds to the control queue and to the pumps' queue. Between a stream that is announced
and its Open the engine itself queues nothing. -/
inductive Adds (cfg : EngineConfig) (s s' : Engine) : List Frame → List Frame → Prop
  | nothing (ho : s'.opening = s.opening) : Adds cfg s s' [] []
  | ack (bytes : UInt32) (ho : s'.opening = s.opening) : Adds cfg s s' [swindowFrame bytes] []
  | refusal (id : UInt32) (reason : String) (ho : s.opening = none) (ho' : s'.opening = none) :
      Adds cfg s s' [.close id (some reason)] []
  | announced (id : UInt32) (hi : cfg.initiates = true) (hp : s.peerSpeaksFc = true) (ho : s.opening = none)
      (ho' : s'.opening = some id) : Adds cfg s s' [fcOnFrame id] []
  | opened (id : UInt32) (target : String) (hi : cfg.initiates = true) (ho : s.opening = some id)
      (ho' : s'.opening = none) (ht : s'.tasks = s.tasks ++ [.new id true s.session.isSome .pumping]) :
      Adds cfg s s' [.open id target] []
  | pumped (tid : ℕ) (t : Task) (m : PumpMove) (orphan : Bool) (ht : s.tasks[tid]? = some t)
      (hm : t.Moves orphan m) (ho : s'.opening = s.opening) : Adds cfg s s' [] m.frames

/-- The two queues in a step: one of the writer's polls, or frames at their ends. -/
inductive QueueStep (cfg : EngineConfig) (s s' : Engine) : List Frame → Prop
  | ctrlNone (hc : s.ctrl = []) (hs : s' = { s with ctrlEmpty := true }) : QueueStep cfg s s' []
  | ctrlSome (f : Frame) (ctrl : List Frame) (hc : s.ctrl = f :: ctrl)
      (hs : s' = { s with ctrl := ctrl, ctrlEmpty := false }) : QueueStep cfg s s' [f]
  | outNone (ho : s.out = []) (hs : s' = { s with ctrlEmpty := false }) : QueueStep cfg s s' []
  | outSome (f : Frame) (out : List Frame) (hc : s.ctrlEmpty = true) (ho : s.out = f :: out)
      (hs : s' = { s with out := out, ctrlEmpty := false }) : QueueStep cfg s s' [f]
  | adds (cs os : List Frame) (ha : Adds cfg s s' cs os) (hctrl : s'.ctrl = s.ctrl ++ cs)
      (hout : s'.out = s.out ++ os) (he : s'.ctrlEmpty = s.ctrlEmpty) : QueueStep cfg s s' []

/-- A step that leaves the queues alone. -/
theorem QueueStep.same (hc : s'.ctrl = s.ctrl) (ho : s'.out = s.out) (he : s'.ctrlEmpty = s.ctrlEmpty)
    (hopen : s'.opening = s.opening) : QueueStep cfg s s' [] :=
  .adds [] [] (.nothing hopen) (by rw [hc, List.append_nil]) (by rw [ho, List.append_nil]) he

theorem QueueStep.touched (h : s.Touched s') : QueueStep cfg s s' [] := by
  have heq := h.eq
  exact .same (by rw [heq]) (by rw [heq]) (by rw [heq]) (by rw [heq])

/-- An acknowledgement, or the end of a session that has no room for it. -/
theorem sendAck_ctrl {ack : Option Frame × SessionRecv} (hend : s.ended = none)
    (hf : ∀ f, ack.1 = some f → ∃ bytes, f = swindowFrame bytes) :
    (s.sendAck ack).ctrl = s.ctrl ∨ ∃ bytes, (s.sendAck ack).ctrl = s.ctrl ++ [swindowFrame bytes] := by
  unfold sendAck
  cases ha : ack.1 with
  | none => exact .inl rfl
  | some f =>
    obtain ⟨bytes, rfl⟩ := hf f ha
    have hend' : ({ s with recv := ack.2 } : Engine).ended = none := hend
    dsimp only
    rcases ctrlSend_cases (swindowFrame bytes) hend' with hc | hc
    · rw [hc]
      exact .inl rfl
    · rw [hc]
      exact .inr ⟨bytes, rfl⟩

theorem QueueStep.sendAck {ack : Option Frame × SessionRecv} (hend : s.ended = none)
    (hf : ∀ f, ack.1 = some f → ∃ bytes, f = swindowFrame bytes) (hc : s'.ctrl = (s.sendAck ack).ctrl)
    (ho : s'.out = s.out) (he : s'.ctrlEmpty = s.ctrlEmpty) (hopen : s'.opening = s.opening) :
    QueueStep cfg s s' [] := by
  rcases sendAck_ctrl hend hf with hq | ⟨bytes, hq⟩
  · exact .same (hc.trans hq) ho he hopen
  · exact .adds _ [] (.ack bytes hopen) (hc.trans hq) (by rw [ho, List.append_nil]) he

theorem queue_step (hend : s.ended = none) (hs : Shape cfg s e s' w) : QueueStep cfg s s' w := by
  cases hs with
  | ctrlNone hc => exact .ctrlNone hc rfl
  | ctrlSome f ctrl hc => exact .ctrlSome f ctrl hc rfl
  | outNone ho => exact .outNone ho rfl
  | outSome f out hc ho => exact .outSome f out hc ho rfl
  | touched e s' he ht => exact .touched ht
  | flush =>
    refine .sendAck hend (fun f hf => ⟨_, (flush_frame hf).1⟩) rfl ?_ ?_ ?_
    · rw [sendAck_eq]
    · rw [sendAck_eq]
    · rw [sendAck_eq]
  | ignored f s' hf ht => exact .touched ht
  | hello payload window s' hfc hp hh => cases hh <;> exact .same rfl rfl rfl rfl
  | swindow payload bytes =>
    rcases onSWindow_cases bytes.toNat s with ⟨-, hq⟩ | ⟨win, -, -, hq⟩ | ⟨win, -, -, hq⟩ <;>
      rw [hq] <;> exact .same rfl rfl rfl rfl
  | data id payload s' hid ht =>
    have heq := ht.eq
    refine .sendAck hend (fun f hf => ⟨_, received_frame hf⟩) (by rw [heq]) ?_ ?_ ?_
    · rw [heq, sendAck_eq]
    · rw [heq, sendAck_eq]
    · rw [heq, sendAck_eq]
  | close id reason s' ht =>
    have heq := ht.eq
    exact .same (by rw [heq]) (by rw [heq]) (by rw [heq]) (by rw [heq])
  | «open» id target s' hi hn ho =>
    cases ho with
    | inUse => exact .same rfl rfl rfl rfl
    | refused reason =>
      have hend' : (s.taken id).ended = none := hend
      rcases ctrlSend_cases (.close id (some reason)) hend' with hc | hc
      · rw [hc]
        exact .same rfl rfl rfl rfl
      · rw [hc]
        exact .adds _ [] (.refusal id reason hn hn) rfl (List.append_nil _).symm rfl
    | accepted => exact .same rfl rfl rfl rfl
  | connection target s' hside hn hc =>
    have hi : cfg.initiates = true := by rw [EngineConfig.initiates, hside]
    cases hc with
    | announced id ha hp =>
      exact .adds _ [] (.announced id hi hp hn rfl) rfl (List.append_nil _).symm rfl
    | _ => exact .same rfl rfl rfl rfl
  | sendOpen target s' hside hc =>
    have hi : cfg.initiates = true := by rw [EngineConfig.initiates, hside]
    cases hc with
    | backlog => exact .same rfl rfl rfl rfl
    | sent id ho => exact .adds _ [] (.opened id target hi ho rfl rfl) rfl (List.append_nil _).symm rfl
  | pump tid pe s' hq =>
    obtain ⟨t, m, session, ht, hm, -, -, rfl⟩ := onPump_eq hq
    exact .adds [] m.frames (.pumped tid t m _ ht hm rfl) (List.append_nil _).symm rfl rfl
  | _ => exact .same rfl rfl rfl rfl

theorem from_moves {t : Task} {m : PumpMove} {orphan : Bool} (hid : t.id ≠ controlId) (hm : t.Moves orphan m) :
    ∀ f ∈ m.frames, f.From cfg := by
  intro f hf
  rcases Task.moves_frames hm f hf with ⟨target, rfl⟩ | ⟨reason, rfl⟩ | ⟨chunk, rfl⟩ | ⟨bytes, rfl⟩
  · trivial
  · trivial
  · exact fun h => absurd h hid
  · exact from_window cfg _ _

theorem Adds.from (htab : s.Tables cfg) {cs os : List Frame} (h : Adds cfg s s' cs os) :
    ∀ f ∈ cs ++ os, f.From cfg := by
  intro f hf
  cases h with
  | nothing => cases hf
  | ack bytes =>
    rw [List.mem_singleton.mp hf]
    exact from_swindow cfg bytes
  | refusal id reason =>
    rw [List.mem_singleton.mp hf]
    trivial
  | announced id hi =>
    rw [List.mem_singleton.mp hf]
    exact from_fcOn hi id
  | opened id target =>
    rw [List.mem_singleton.mp hf]
    trivial
  | pumped tid t m orphan ht hm => exact from_moves (htab.id_ne ht (Task.moves_running hm)) hm f hf

/-- Everything an engine queues and writes is its own. -/
theorem from_step (htab : s.Tables cfg) (hq : QueueStep cfg s s' w)
    (h : ∀ f ∈ s.ctrl ++ s.out, f.From cfg) : ∀ f ∈ s'.ctrl ++ s'.out ++ w, f.From cfg := by
  intro f hf
  cases hq with
  | ctrlNone hc hs =>
    rw [hs, List.append_nil] at hf
    exact h f hf
  | ctrlSome g ctrl hc hs =>
    subst hs
    apply h
    rw [hc]
    simp only [List.mem_append, List.mem_cons, List.not_mem_nil, or_false] at hf ⊢
    tauto
  | outNone ho hs =>
    rw [hs, List.append_nil] at hf
    exact h f hf
  | outSome g out hc ho hs =>
    subst hs
    apply h
    rw [ho]
    simp only [List.mem_append, List.mem_cons, List.not_mem_nil, or_false] at hf ⊢
    tauto
  | adds cs os ha hctrl hout =>
    rw [hctrl, hout, List.append_nil] at hf
    simp only [List.mem_append] at hf
    have hq := ha.from htab f
    rcases hf with (hf | hf) | hf | hf
    · exact h f (List.mem_append_left _ hf)
    · exact hq (List.mem_append_left _ hf)
    · exact h f (List.mem_append_right _ hf)
    · exact hq (List.mem_append_right _ hf)

theorem from_init (cfg : EngineConfig) : ∀ f ∈ (init cfg).ctrl ++ (init cfg).out, f.From cfg := by
  intro f hf
  simp only [init] at hf
  split at hf
  · rename_i hfc
    rw [List.mem_singleton.mp hf]
    exact from_hello cfg hfc
  · cases hf

end Engine

end CtAgent.Forward
