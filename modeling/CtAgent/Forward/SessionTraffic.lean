import CtAgent.Forward.SessionUse

/-! The two laws of the session window: a sender's unacknowledged bytes are those it queued less
those it was paid for, and a receiver acknowledges what it reads. -/
namespace CtAgent.Forward
open CtAgent.Lib

/-- The bytes a frame acknowledges. -/
def Frame.acks : Frame → ℕ
  | .data id payload =>
    if id = controlId then
      match parseControl payload with
      | some (.swindow bytes) => bytes.toNat
      | _ => 0
    else 0
  | _ => 0

theorem acks_swindow (bytes : UInt32) : (swindowFrame bytes).acks = bytes.toNat := by
  have h := parseControl_swindow bytes
  simp only [swindowFrame, Frame.payload] at h
  simp only [Frame.acks, swindowFrame, if_true, h]

theorem acks_window (id bytes : UInt32) : (windowFrame id bytes).acks = 0 := by
  have h := parseControl_window id bytes
  simp only [windowFrame, Frame.payload] at h
  simp only [Frame.acks, windowFrame, if_true, h]

theorem acks_fcOn (id : UInt32) : (fcOnFrame id).acks = 0 := by
  have h := parseControl_fcOn id
  simp only [fcOnFrame, Frame.payload] at h
  simp only [Frame.acks, fcOnFrame, if_true, h]

namespace SessionRecv

/-- What was received and not acknowledged, and the acknowledgement that goes out now. -/
def counted (ack : Option Frame × SessionRecv) : ℕ := ack.2.unacked + (ack.1.map Frame.acks).getD 0

theorem counted_flush (r : SessionRecv) :
    counted r.flush ≤ r.unacked ∧ (r.unacked < 2 ^ 32 → counted r.flush = r.unacked) := by
  unfold counted flush
  dsimp only
  split
  · rw [Option.map_some, Option.getD_some, acks_swindow, UInt32.toNat_ofNat', Nat.zero_add]
    exact ⟨Nat.mod_le _ _, fun h => Nat.mod_eq_of_lt h⟩
  · rw [Option.map_none, Option.getD_none]
    omega

/-- Every byte that is read counts, once the peer's HELLO was read. -/
theorem counted_received (n : ℕ) (r : SessionRecv) :
    counted (r.received n) ≤ r.unacked + n ∧
      (r.on = true ∨ n = 0 → r.unacked + n < 2 ^ 32 → counted (r.received n) = r.unacked + n) := by
  unfold received
  split
  · rename_i h
    simp only [counted, Option.map_none, Option.getD_none, Nat.add_zero]
    refine ⟨Nat.le_add_right _ _, fun hon _ => ?_⟩
    rcases hon with hon | rfl
    · simp only [hon, Bool.not_true, Bool.false_or, beq_iff_eq] at h
      rw [h, Nat.add_zero]
    · rfl
  · dsimp only
    split
    · have hf := counted_flush { r with unacked := r.unacked + n }
      exact ⟨hf.1, fun _ hlt => hf.2 hlt⟩
    · simp only [counted, Option.map_none, Option.getD_none, Nat.add_zero]
      exact ⟨Nat.le_refl _, fun _ _ => trivial⟩

end SessionRecv

/-- Stream data is no acknowledgement. -/
theorem acks_data {id : UInt32} (hid : id ≠ controlId) (payload : Bytes) : (Frame.data id payload).acks = 0 :=
  if_neg hid

namespace Engine
variable {cfg : EngineConfig} {grant : ℕ} {s s' : Engine} {e : EngineEvent} {w : List Frame}

theorem tally_ctrlSend {μ : Frame → ℕ} {f : Frame} (hμ : μ f = 0) (s : Engine) :
    tally μ (s.ctrlSend f).ctrl = tally μ s.ctrl := by
  unfold ctrlSend
  split
  · rfl
  · split
    · rfl
    · simp [hμ]

theorem tally_sendAck {μ : Frame → ℕ} {ack : Option Frame × SessionRecv}
    (hμ : ∀ f, ack.1 = some f → μ f = 0) (s : Engine) : tally μ (s.sendAck ack).ctrl = tally μ s.ctrl := by
  unfold sendAck
  split
  · rename_i f hf
    exact tally_ctrlSend (hμ f hf) _
  · rfl

theorem streamLen_swindow (bytes : UInt32) : (swindowFrame bytes).streamLen = 0 := by
  simp [swindowFrame, Frame.streamLen]

theorem streamLen_fcOn (id : UInt32) : (fcOnFrame id).streamLen = 0 := by
  simp [fcOnFrame, Frame.streamLen]

/-- A control message that is no acknowledgement pays nothing. -/
theorem acks_control {payload : Bytes} (h : ∀ bytes, parseControl payload ≠ some (.swindow bytes)) :
    (Frame.data controlId payload).acks = 0 := by
  simp only [Frame.acks, if_true]

theorem acks_ignored {f : Frame} (hf : f.streamOf = none)
    (hc : parseControl f.payload = none ∨ ∃ id bytes, parseControl f.payload = some (.window id bytes)) :
    f.acks = 0 := by
  cases f with
  | data id payload =>
    simp only [Frame.streamOf] at hf
    split at hf
    · rename_i hid
      rw [hid]
      refine acks_control fun bytes hb => ?_
      rcases hc with hc | ⟨k, b, hc⟩ <;> simp [Frame.payload, hb] at hc
    · cases hf
  | _ => cases hf

theorem ack_frames {n : ℕ} (r : SessionRecv) :
    (∀ f, (r.received n).1 = some f → f.streamLen = 0) ∧ ∀ f, r.flush.1 = some f → f.streamLen = 0 := by
  constructor
  · intro f hf
    rw [received_frame hf]
    exact streamLen_swindow _
  · intro f hf
    rw [(flush_frame hf).1]
    exact streamLen_swindow _

/-- A sender: what is unacknowledged grows by what it queues and falls by what it is paid. The other
case is the grant of the window before the first stream. -/
theorem sent_step (h : s.Windowed cfg grant) (htab : s.Tables cfg)
    (hs : Shape cfg s e s' w) {win' : SessionWindow ℕ} (hw' : s'.session = some win')
    (hack : ∀ win, s.session = some win → tally Frame.acks e.input ≤ win.send.unacknowledged) :
    (∃ win, s.session = some win ∧
      win'.send.unacknowledged + tally Frame.acks e.input + tally Frame.streamLen (s.ctrl ++ s.out) =
        win.send.unacknowledged + tally Frame.streamLen (s'.ctrl ++ s'.out) + tally Frame.streamLen w) ∨
    (s.tasks = [] ∧ win'.send.unacknowledged = 0 ∧ s'.ctrl = s.ctrl ∧ s'.out = s.out ∧ s'.tasks = [] ∧
      w = []) := by
  -- the window is left alone, and nothing the engine queues or reads counts for it
  have hkeep : s'.session = s.session → tally Frame.acks e.input = 0 →
      tally Frame.streamLen (s'.ctrl ++ s'.out) + tally Frame.streamLen w =
        tally Frame.streamLen (s.ctrl ++ s.out) →
      ∃ win, s.session = some win ∧
        win'.send.unacknowledged + tally Frame.acks e.input + tally Frame.streamLen (s.ctrl ++ s.out) =
          win.send.unacknowledged + tally Frame.streamLen (s'.ctrl ++ s'.out) + tally Frame.streamLen w := by
    intro h1 h2 h3
    refine ⟨win', h1 ▸ hw', ?_⟩
    omega
  have hnoframe : (∀ f, e ≠ .frame f) → tally Frame.acks e.input = 0 := by
    intro he
    cases e with
    | frame f => exact absurd rfl (he f)
    | _ => rfl
  cases hs with
  | ctrlNone => exact .inl (hkeep rfl rfl rfl)
  | ctrlSome f ctrl hc =>
    refine .inl (hkeep rfl rfl ?_)
    simp only [hc, tally_append, tally_cons, tally_nil]
    omega
  | outNone => exact .inl (hkeep rfl rfl rfl)
  | outSome f out hc ho =>
    refine .inl (hkeep rfl rfl ?_)
    simp only [ho, tally_append, tally_cons, tally_nil]
    omega
  | writeError => exact .inl (hkeep rfl rfl rfl)
  | touched e s' he ht =>
    have heq := ht.eq
    refine .inl (hkeep (by rw [heq]) (hnoframe he) (by rw [heq]; rfl))
  | flags e accepting helloDeadline stopping he => exact .inl (hkeep rfl (hnoframe he) rfl)
  | gone e why he => exact .inl (hkeep rfl (hnoframe he) rfl)
  | flush =>
    have hq := sendAck_eq s.recv.flush s
    have ht := tally_sendAck (ack_frames (n := 0) s.recv).2 s
    refine .inl (hkeep (by rw [hq]) rfl ?_)
    rw [hq]
    simp only [tally_append, ht, tally_nil]
    omega
  | ignored f s' hf ht hc =>
    have heq := ht.eq
    have hsess : s'.session = s.session := by rw [heq]
    have hfc := h.enabled (by rw [← hsess, hw']; rfl)
    refine .inl (hkeep hsess ?_ (by rw [heq]; rfl))
    simp [EngineEvent.input, acks_ignored hf (hc hfc)]
  | hello payload window s' hfc hp hh =>
    have hin : tally Frame.acks (EngineEvent.frame (.data controlId payload)).input = 0 := by
      simp [EngineEvent.input, Frame.acks, hp]
    cases hh with
    | late hl => exact .inl (hkeep rfl hin rfl)
    | granted session hl hg =>
      refine .inr ⟨h.tasks_nil hl, ?_, rfl, rfl, h.tasks_nil hl, rfl⟩
      rcases hg with rfl | ⟨send, hf, rfl⟩
      · cases hw'
      · cases hw'
        exact SessionWindow.fromHello_unacknowledged hf
    | below on hl hf => exact .inl (hkeep rfl hin rfl)
  | swindow payload bytes hfc hp =>
    have hin : tally Frame.acks (EngineEvent.frame (.data controlId payload)).input = bytes.toNat := by
      simp [EngineEvent.input, Frame.acks, hp]
    rcases onSWindow_cases bytes.toNat s with ⟨hn, hq⟩ | ⟨win, hwin, hle, hq⟩ | ⟨win, hwin, hlt, hq⟩
    · rw [hq, hn] at hw'
      cases hw'
    · rw [hq] at hw' ⊢
      cases hw'
      refine .inl ⟨win, hwin, ?_⟩
      have hpaid := ((h.serves win hwin).acknowledge hle).1
      dsimp only
      rw [hin, tally_nil]
      omega
    · have hle := hack win hwin
      rw [hin] at hle
      omega
  | flood payload id hfc hp =>
    refine .inl (hkeep rfl ?_ rfl)
    simp [EngineEvent.input, Frame.acks, hp]
  | fcOn payload id hfc hp =>
    refine .inl (hkeep rfl ?_ rfl)
    simp [EngineEvent.input, Frame.acks, hp]
  | data id payload s' hid ht =>
    have hq := sendAck_eq (s.recv.received payload.length) s
    have hta := tally_sendAck (ack_frames (n := payload.length) s.recv).1 s
    have heq := ht.eq
    refine .inl (hkeep (by rw [heq, hq]) ?_ ?_)
    · simp [EngineEvent.input, acks_data hid]
    · rw [heq, hq]
      simp only [tally_append, hta, tally_nil, Nat.add_zero]
  | close id reason s' ht =>
    have heq := ht.eq
    exact .inl (hkeep (by rw [heq]) rfl (by rw [heq]; rfl))
  | openIgnored id target => exact .inl (hkeep rfl rfl rfl)
  | «open» id target s' hi hnone ho =>
    cases ho with
    | inUse => exact .inl (hkeep rfl rfl rfl)
    | refused reason =>
      have hq := ctrlSend_eq (.close id (some reason)) (s.taken id)
      have ht := tally_ctrlSend (μ := Frame.streamLen) (f := .close id (some reason)) rfl (s.taken id)
      refine .inl (hkeep (by rw [hq]; rfl) rfl ?_)
      rw [hq]
      simp only [tally_append, ht, tally_nil, Nat.add_zero]
      rfl
    | accepted => exact .inl (hkeep rfl rfl rfl)
  | connection target s' hside hn hc =>
    cases hc with
    | announced id =>
      refine .inl (hkeep rfl rfl ?_)
      simp only [tally_append, tally_cons, tally_nil, streamLen_fcOn]
      omega
    | _ => exact .inl (hkeep rfl rfl rfl)
  | sendOpen target s' hside hc =>
    cases hc with
    | backlog => exact .inl (hkeep rfl rfl rfl)
    | sent id =>
      refine .inl (hkeep rfl rfl ?_)
      have ho : (Frame.open id target).streamLen = 0 := rfl
      simp only [spawn, tally_append, tally_cons, tally_nil, ho]
      omega
  | pump tid pe s' hq =>
    obtain ⟨-, frames, hout, hctrl, hun⟩ := h.onPump htab hq
    obtain ⟨win, hwin, hu⟩ := hun win' hw'
    refine .inl ⟨win, hwin, ?_⟩
    rw [hout, hctrl, hu]
    simp only [EngineEvent.input, tally_append, tally_nil]
    omega

/-- Without a task nothing is queued that counts for the window. -/
theorem sent_none (hs : Shape cfg s e s' w) (hn : s'.tasks = []) :
    s.tasks = [] ∧
      tally Frame.streamLen (s'.ctrl ++ s'.out) + tally Frame.streamLen w =
        tally Frame.streamLen (s.ctrl ++ s.out) := by
  have htouched : ∀ q, Touched q s' → q.tasks = [] ∧
      tally Frame.streamLen (s'.ctrl ++ s'.out) = tally Frame.streamLen (q.ctrl ++ q.out) := by
    intro q ht
    have heq := ht.eq
    refine ⟨?_, by rw [heq]⟩
    have hl := ht.length
    rw [hn] at hl
    exact List.length_eq_zero_iff.mp hl.symm
  cases hs with
  | ctrlNone => exact ⟨hn, rfl⟩
  | ctrlSome f ctrl hc =>
    refine ⟨hn, ?_⟩
    simp only [hc, tally_append, tally_cons, tally_nil]
    omega
  | outNone => exact ⟨hn, rfl⟩
  | outSome f out hc ho =>
    refine ⟨hn, ?_⟩
    simp only [ho, tally_append, tally_cons, tally_nil]
    omega
  | touched e s' he ht => exact htouched s ht
  | flush =>
    have hq := sendAck_eq s.recv.flush s
    have ht := tally_sendAck (ack_frames (n := 0) s.recv).2 s
    rw [hq] at hn ⊢
    refine ⟨hn, ?_⟩
    simp only [tally_append, ht, tally_nil, Nat.add_zero]
  | ignored f s' hf ht => exact htouched s ht
  | hello payload window s' hfc hp hh => cases hh <;> exact ⟨hn, rfl⟩
  | swindow payload bytes =>
    rcases onSWindow_cases bytes.toNat s with ⟨-, hq⟩ | ⟨win, -, -, hq⟩ | ⟨win, -, -, hq⟩ <;>
      rw [hq] at hn ⊢ <;> exact ⟨hn, rfl⟩
  | data id payload s' hid ht =>
    have hq := sendAck_eq (s.recv.received payload.length) s
    have hta := tally_sendAck (ack_frames (n := payload.length) s.recv).1 s
    obtain ⟨h1, h2⟩ := htouched _ ht
    rw [hq] at h1 h2
    refine ⟨h1, ?_⟩
    rw [h2]
    simp only [tally_append, hta, tally_nil, Nat.add_zero]
  | close id reason s' ht => exact htouched { s with pendingFc := s.pendingFc.erase id } ht
  | «open» id target s' hi hnone ho =>
    cases ho with
    | inUse => exact ⟨hn, rfl⟩
    | refused reason =>
      have hq := ctrlSend_eq (.close id (some reason)) (s.taken id)
      have ht := tally_ctrlSend (μ := Frame.streamLen) (f := .close id (some reason)) rfl (s.taken id)
      rw [hq] at hn ⊢
      refine ⟨hn, ?_⟩
      simp only [tally_append, ht, tally_nil, Nat.add_zero]
      rfl
    | accepted => simp [spawn] at hn
  | connection target s' hside ho hc =>
    cases hc with
    | announced id =>
      refine ⟨hn, ?_⟩
      simp only [tally_append, tally_cons, tally_nil, streamLen_fcOn]
      omega
    | plain => simp [spawn] at hn
    | _ => exact ⟨hn, rfl⟩
  | sendOpen target s' hside hc =>
    cases hc with
    | backlog => exact ⟨hn, rfl⟩
    | sent => simp [spawn] at hn
  | pump tid pe s' hq =>
    obtain ⟨t, m, session, ht, -, -, -, rfl⟩ := onPump_eq hq
    have hlen := congrArg List.length hn
    simp only [List.length_set, List.length_nil] at hlen
    rw [List.length_eq_zero_iff.mp hlen] at ht
    cases ht
  | _ => exact ⟨hn, rfl⟩

theorem acks_moves {t : Task} {m : PumpMove} {orphan : Bool} (hid : t.id ≠ controlId) (hm : t.Moves orphan m) :
    tally Frame.acks m.frames = 0 := by
  cases hm with
  | stop frames ha hf =>
    rcases hf with rfl | ⟨why, rfl⟩
    · rfl
    · rfl
  | queued chunk =>
    simp [acks_data hid]
  | wroteReported payload rest => simp [Task.goto, acks_window]
  | reported => simp [Task.goto, acks_window]
  | _ => rfl

/-- Sending an acknowledgement loses nothing of the count while the session goes on. -/
theorem acks_sendAck (ack : Option Frame × SessionRecv) (hend : s.ended = none) :
    (s.sendAck ack).recv.unacked + tally Frame.acks (s.sendAck ack).ctrl ≤
      SessionRecv.counted ack + tally Frame.acks s.ctrl ∧
    ((s.sendAck ack).ended = none →
      (s.sendAck ack).recv.unacked + tally Frame.acks (s.sendAck ack).ctrl =
        SessionRecv.counted ack + tally Frame.acks s.ctrl) := by
  unfold sendAck SessionRecv.counted
  cases ha : ack.1 with
  | none =>
    simp only [Option.map_none, Option.getD_none, Nat.add_zero]
    exact ⟨Nat.le_refl _, fun _ => trivial⟩
  | some f =>
    have hend' : ({ s with recv := ack.2 } : Engine).ended = none := hend
    simp only [Option.map_some, Option.getD_some]
    rcases ctrlSend_cases f hend' with hc | hc
    · rw [hc]
      refine ⟨?_, fun h => by cases h⟩
      simp only [endWith]
      omega
    · rw [hc]
      simp only [tally_append, tally_cons, tally_nil]
      omega

/-- What an engine read and what it acknowledged, over its queues. -/
def settled (s : Engine) : ℕ := s.recv.unacked + tally Frame.acks (s.ctrl ++ s.out)

/-- A receiver: what it reads it acknowledges or still has to. -/
theorem received_step (htab : s.Tables cfg) (hend : s.ended = none) (hs : Shape cfg s e s' w) :
    s'.settled + tally Frame.acks w ≤ s.settled + tally Frame.streamLen e.input ∧
    (s'.ended = none → (s.recv.on = true ∨ tally Frame.streamLen e.input = 0) →
      s.recv.unacked + tally Frame.streamLen e.input < 2 ^ 32 →
      s'.settled + tally Frame.acks w = s.settled + tally Frame.streamLen e.input) := by
  have hnoframe : (∀ f, e ≠ .frame f) → tally Frame.streamLen e.input = 0 := by
    intro he
    cases e with
    | frame f => exact absurd rfl (he f)
    | _ => rfl
  -- nothing is read that counts, and nothing is acknowledged
  have hkeep : s'.recv.unacked = s.recv.unacked →
      tally Frame.acks (s'.ctrl ++ s'.out) + tally Frame.acks w = tally Frame.acks (s.ctrl ++ s.out) →
      tally Frame.streamLen e.input = 0 →
      s'.settled + tally Frame.acks w ≤ s.settled + tally Frame.streamLen e.input ∧
      (s'.ended = none → (s.recv.on = true ∨ tally Frame.streamLen e.input = 0) →
        s.recv.unacked + tally Frame.streamLen e.input < 2 ^ 32 →
        s'.settled + tally Frame.acks w = s.settled + tally Frame.streamLen e.input) := by
    intro h1 h2 h3
    simp only [settled, h1, h3]
    omega
  have htouched : Touched s s' → w = [] → tally Frame.streamLen e.input = 0 →
      s'.settled + tally Frame.acks w ≤ s.settled + tally Frame.streamLen e.input ∧
      (s'.ended = none → (s.recv.on = true ∨ tally Frame.streamLen e.input = 0) →
        s.recv.unacked + tally Frame.streamLen e.input < 2 ^ 32 →
        s'.settled + tally Frame.acks w = s.settled + tally Frame.streamLen e.input) := by
    intro ht hw hl
    have heq := ht.eq
    refine hkeep (by rw [heq]) (by rw [heq, hw]; rfl) hl
  cases hs with
  | ctrlNone => exact hkeep rfl rfl rfl
  | ctrlSome f ctrl hc =>
    refine hkeep rfl ?_ rfl
    simp only [hc, tally_append, tally_cons, tally_nil]
    omega
  | outNone => exact hkeep rfl rfl rfl
  | outSome f out hc ho =>
    refine hkeep rfl ?_ rfl
    simp only [ho, tally_append, tally_cons, tally_nil]
    omega
  | writeError => exact hkeep rfl rfl rfl
  | touched e s' he ht => exact htouched ht rfl (hnoframe he)
  | flags e accepting helloDeadline stopping he => exact hkeep rfl rfl (hnoframe he)
  | gone e why he => exact hkeep rfl rfl (hnoframe he)
  | flush =>
    have hq := sendAck_eq s.recv.flush s
    have ha := acks_sendAck s.recv.flush hend
    have hc := s.recv.counted_flush
    have hout : (s.sendAck s.recv.flush).out = s.out := by rw [hq]
    simp only [settled, tally_append, hout, EngineEvent.input, tally_nil]
    refine ⟨by omega, fun he _ hlt => ?_⟩
    have h1 := ha.2 he
    have h2 := hc.2 hlt
    omega
  | ignored f s' hf ht =>
    refine htouched ht rfl ?_
    cases f with
    | data id payload =>
      simp only [Frame.streamOf] at hf
      split at hf
      · rename_i hid
        simp [EngineEvent.input, Frame.streamLen, hid]
      · cases hf
    | _ => cases hf
  | hello payload window s' hfc hp hh =>
    cases hh <;> exact hkeep rfl rfl (by simp [EngineEvent.input, Frame.streamLen])
  | swindow payload bytes =>
    have hin : tally Frame.streamLen (EngineEvent.frame (.data controlId payload)).input = 0 := by
      simp [EngineEvent.input, Frame.streamLen]
    rcases onSWindow_cases bytes.toNat s with ⟨-, hq⟩ | ⟨win, -, -, hq⟩ | ⟨win, -, -, hq⟩ <;>
      rw [hq] at hkeep ⊢ <;> exact hkeep rfl rfl hin
  | flood => exact hkeep rfl rfl (by simp [EngineEvent.input, Frame.streamLen])
  | fcOn => exact hkeep rfl rfl (by simp [EngineEvent.input, Frame.streamLen])
  | data id payload s' hid ht =>
    have hin : tally Frame.streamLen (EngineEvent.frame (.data id payload)).input = payload.length := by
      simp [EngineEvent.input, Frame.streamLen, hid]
    have heq := ht.eq
    have hq := sendAck_eq (s.recv.received payload.length) s
    have ha := acks_sendAck (s.recv.received payload.length) hend
    have hc := s.recv.counted_received payload.length
    have hset : s'.settled = (s.sendAck (s.recv.received payload.length)).recv.unacked +
        tally Frame.acks (s.sendAck (s.recv.received payload.length)).ctrl + tally Frame.acks s.out := by
      rw [heq, settled, tally_append, ← Nat.add_assoc]
      congr 1
      rw [hq]
    have hended : s'.ended = (s.sendAck (s.recv.received payload.length)).ended := by rw [heq]
    rw [hset, hin, hended]
    simp only [settled, tally_append, tally_nil]
    refine ⟨by omega, fun he hon hlt => ?_⟩
    have h1 := ha.2 he
    have h2 := hc.2 hon hlt
    omega
  | close id reason s' ht =>
    have heq := ht.eq
    exact hkeep (by rw [heq]) (by rw [heq]; rfl) rfl
  | openIgnored => exact hkeep rfl rfl rfl
  | «open» id target s' hi hnone ho =>
    cases ho with
    | inUse => exact hkeep rfl rfl rfl
    | refused reason =>
      have hq := ctrlSend_eq (.close id (some reason)) (s.taken id)
      have ht := tally_ctrlSend (μ := Frame.acks) (f := .close id (some reason)) rfl (s.taken id)
      refine hkeep (by rw [hq]; rfl) ?_ rfl
      rw [hq]
      simp only [tally_append, ht, tally_nil, Nat.add_zero]
      rfl
    | accepted => exact hkeep rfl rfl rfl
  | connection target s' hside hn hc =>
    cases hc with
    | announced id =>
      refine hkeep rfl ?_ rfl
      simp only [tally_append, tally_cons, tally_nil, acks_fcOn]
      omega
    | _ => exact hkeep rfl rfl rfl
  | sendOpen target s' hside hc =>
    cases hc with
    | backlog => exact hkeep rfl rfl rfl
    | sent id =>
      have ho : (Frame.open id target).acks = 0 := rfl
      refine hkeep rfl ?_ rfl
      simp only [spawn, tally_append, tally_cons, tally_nil, ho]
      omega
  | pump tid pe s' hq =>
    obtain ⟨t, m, session, ht, hm, -, -, rfl⟩ := onPump_eq hq
    have ha := acks_moves (htab.id_ne ht (Task.moves_running hm)) hm
    refine hkeep rfl ?_ rfl
    simp only [tally_append, ha, tally_nil, Nat.add_zero]

/-- How a step changes the receiving side: it reads a HELLO, counts what it reads, or flushes. -/
theorem recv_step (hs : Shape cfg s e s' w) :
    s'.recv = s.recv ∨ s'.recv = s.recv.flush.2 ∨
    (∃ id payload, e = .frame (.data id payload) ∧ id ≠ controlId ∧
      s'.recv = (s.recv.received payload.length).2) ∨
    (∃ payload window, e = .frame (.data controlId payload) ∧ cfg.fcEnabled = true ∧
      parseControl payload = some (.hello window) ∧ (s'.ended = none → s'.recv.on = window.isSome) ∧
      s'.recv = { s.recv with on := s'.recv.on }) := by
  cases hs with
  | touched e s' he ht => exact .inl (by rw [ht.eq])
  | flush => exact .inr (.inl (by rw [sendAck_eq]))
  | ignored f s' hf ht => exact .inl (by rw [ht.eq])
  | hello payload window s' hfc hp hh =>
    refine .inr (.inr (.inr ⟨payload, window, rfl, hfc, hp, ?_, ?_⟩))
    · cases hh with
      | late => exact fun _ => rfl
      | granted => exact fun _ => rfl
      | below => exact fun he => by cases he
    · cases hh <;> rfl
  | swindow payload bytes =>
    rcases onSWindow_cases bytes.toNat s with ⟨-, hq⟩ | ⟨win, -, -, hq⟩ | ⟨win, -, -, hq⟩ <;>
      rw [hq] <;> exact .inl rfl
  | data id payload s' hid ht =>
    refine .inr (.inr (.inl ⟨id, payload, rfl, hid, ?_⟩))
    rw [ht.eq, sendAck_eq]
  | close id reason s' ht => exact .inl (by rw [ht.eq])
  | «open» id target s' hi hnone ho =>
    cases ho with
    | refused reason =>
      left
      rw [ctrlSend_eq]
      rfl
    | _ => exact .inl rfl
  | connection target s' hside hn hc => cases hc <;> exact .inl rfl
  | sendOpen target s' hside hc => cases hc <;> exact .inl rfl
  | pump tid pe s' hq =>
    obtain ⟨t, m, session, -, -, -, -, rfl⟩ := onPump_eq hq
    exact .inl rfl
  | _ => exact .inl rfl

end Engine

end CtAgent.Forward
