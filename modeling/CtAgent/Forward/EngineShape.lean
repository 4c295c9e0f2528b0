import CtAgent.Forward.View

/-! The shape of an engine's steps: which parts of its state each one touches. -/
namespace CtAgent.Forward
open CtAgent.Lib

/-- What a task shows to the engine's other parts. -/
structure Face where
  id : UInt32
  credited : Bool
  session : Bool
  up : Up
  deriving DecidableEq

def Task.face (t : Task) : Face := ⟨t.id, t.credited, t.session, t.up⟩

namespace Engine
variable {cfg : EngineConfig} {s s' s'' : Engine} {t : Task} {i id : UInt32} {tid : ℕ}

/-- Only the tables of the streams changed, and nothing the other parts see of a task. -/
structure Touched (s s' : Engine) : Prop where
  eq : s' = { s with entries := s'.entries, running := s'.running, tasks := s'.tasks, blocked := s'.blocked }
  faces : s'.tasks.map Task.face = s.tasks.map Task.face

theorem Touched.refl (s : Engine) : s.Touched s := ⟨rfl, rfl⟩

theorem Touched.trans (h : s.Touched s') (h' : s'.Touched s'') : s.Touched s'' := by
  refine ⟨?_, h'.faces.trans h.faces⟩
  rw [h'.eq, h.eq]

theorem touched_modifyTask {f : Task → Task} (hf : ∀ t, (f t).face = t.face) (tid : ℕ) (s : Engine) :
    s.Touched (s.modifyTask tid f) := by
  exact ⟨rfl, map_modifyTask hf tid s⟩

theorem face_pushIn (msg : StreamIn) (t : Task) : (pushIn msg t).face = t.face := by
  unfold pushIn
  split <;> rfl

theorem face_countPending (payload : Bytes) (t : Task) : (countPending payload t).face = t.face := by
  unfold countPending
  split <;> rfl

theorem touched_notify (tid : ℕ) (msg : StreamIn) (s : Engine) : s.Touched (s.notify tid msg) := by
  unfold notify
  split
  · exact touched_modifyTask (face_pushIn msg) tid s
  · exact ⟨rfl, rfl⟩

theorem touched_deliver (tid : ℕ) (payload : Bytes) (s : Engine) :
    s.Touched (s.deliver tid payload).2 := by
  unfold deliver
  split
  · exact .refl s
  · exact (touched_modifyTask (face_countPending payload) tid s).trans (touched_notify tid _ _)

theorem touched_removeEntry (id : UInt32) (tid : ℕ) (s : Engine) : s.Touched (s.removeEntry id tid) := by
  have h : s.Touched { s with entries := s.entries.erase id } := ⟨rfl, rfl⟩
  exact h.trans (touched_modifyTask (f := closeCredit) (fun _ => rfl) tid _)

theorem touched_abortEntry (id : UInt32) (s : Engine) : s.Touched (s.abortEntry id) := by
  unfold abortEntry
  split
  · exact (touched_removeEntry id _ s).trans (touched_notify _ _ _)
  · exact .refl s

theorem touched_onClose (id : UInt32) (reason : Option String) (s : Engine) :
    Touched { s with pendingFc := s.pendingFc.erase id } (s.onClose id reason) := by
  unfold onClose
  dsimp only
  split
  · exact touched_abortEntry id _
  · split
    · exact touched_notify _ _ _
    · exact .refl _

theorem Tables.touched_onJoin (h : s.Tables cfg) (hq : s.onJoin tid = some s') : s.Touched s' := by
  obtain ⟨t, f, -, -, hf, rfl⟩ := h.onJoin_eq hq
  have hface : ∀ u, (f u).face = u.face := by
    intro u
    rcases hf with rfl | rfl <;> rfl
  exact ⟨rfl, (touched_modifyTask hface tid s).faces⟩

theorem touched_onUnblock (hq : s.onUnblock = some s') : s.Touched s' := by
  unfold onUnblock at hq
  split at hq
  · cases hq
  · split at hq
    · cases hq
      have h : s.Touched { s with blocked := none } := ⟨rfl, rfl⟩
      exact h.trans (touched_modifyTask (face_pushIn _) _ _)
    · cases hq

theorem Touched.length (h : s.Touched s') : s'.tasks.length = s.tasks.length := by
  have hl := congrArg List.length h.faces
  simpa using hl

/-- The engine behind the note that a stream is reset and the Close that says so to its peer. -/
def resetting (id : UInt32) (why : ResetReason) (s : Engine) : Engine :=
  { s with resets := s.resets ++ [(id, why)] }.ctrlSend (abortFrame id)

/-- A reset is a change of the tables and then the note and the Close. -/
theorem reset_shape (id : UInt32) (why : ResetReason) (s : Engine) :
    ∃ p, s.Touched p ∧ s.reset id why = p.resetting id why := by
  have ht := touched_abortEntry id { s with resets := s.resets ++ [(id, why)] }
  unfold reset resetting
  generalize abortEntry id { s with resets := s.resets ++ [(id, why)] } = q at ht ⊢
  have heq := ht.eq
  refine ⟨{ q with resets := s.resets }, ⟨?_, ht.faces⟩, ?_⟩
  · rw [heq]
  · rw [heq]

/-- Stream data: the count and its acknowledgement, then the tables, or the reset of its stream. -/
theorem onData_shape (id : UInt32) (payload : Bytes) (s : Engine) :
    Touched (s.sendAck (s.recv.received payload.length)) (s.onData id payload) ∨
      ∃ p why, Touched (s.sendAck (s.recv.received payload.length)) p ∧
        s.onData id payload = p.resetting id why := by
  unfold onData
  dsimp only
  generalize s.sendAck (s.recv.received payload.length) = q
  split
  · exact .inl (.refl q)
  · split
    · exact .inl (.refl q)
    · rename_i tid he
      have ht := touched_deliver tid payload q
      generalize q.deliver tid payload = d at ht ⊢
      obtain ⟨ok, p⟩ := d
      cases ok with
      | true => exact .inl ht
      | false =>
        obtain ⟨p', hp, hq⟩ := reset_shape id .exceededCredit p
        exact .inr ⟨p', .exceededCredit, ht.trans hp, hq⟩

/-- What a control message does. -/
theorem onControl_shape (hfc : cfg.fcEnabled = true) (payload : Bytes) (s : Engine) :
    (∃ window, parseControl payload = some (.hello window) ∧
      s.onControl cfg payload = (match cfg.side with
        | .initiate _ => s.initiateHello window
        | .accept _ => s.acceptHello window)) ∨
    (∃ bytes, parseControl payload = some (.swindow bytes) ∧
      s.onControl cfg payload = s.onSWindow bytes.toNat) ∨
    (∃ id, parseControl payload = some (.fcOn id) ∧
      ((maxPendingFc ≤ s.pendingFc.card ∧ s.onControl cfg payload = s.endWith .controlFlood) ∨
        (s.pendingFc.card < maxPendingFc ∧
          s.onControl cfg payload = { s with pendingFc := insert id s.pendingFc }))) ∨
    ((parseControl payload = none ∨ ∃ id bytes, parseControl payload = some (.window id bytes)) ∧
      (s.Touched (s.onControl cfg payload) ∨
        ∃ p id why, s.Touched p ∧ s.onControl cfg payload = p.resetting id why)) := by
  unfold onControl
  rw [if_pos hfc]
  unfold applyControl
  cases hp : parseControl payload with
  | none => exact .inr (.inr (.inr ⟨.inl rfl, .inl (.refl s)⟩))
  | some c =>
    cases c with
    | hello window => exact .inl ⟨window, rfl, rfl⟩
    | swindow bytes => exact .inr (.inl ⟨bytes, rfl, rfl⟩)
    | fcOn id =>
      refine .inr (.inr (.inl ⟨id, rfl, ?_⟩))
      by_cases hc : maxPendingFc ≤ s.pendingFc.card
      · exact .inl ⟨hc, by simp [hc]⟩
      · exact .inr ⟨Nat.lt_of_not_le hc, by simp [hc]⟩
    | window id bytes =>
      refine .inr (.inr (.inr ⟨.inr ⟨id, bytes, rfl⟩, ?_⟩))
      dsimp only
      cases he : s.entries.lookup id with
      | none => exact .inl (.refl s)
      | some tid =>
        cases ht : s.tasks[tid]? with
        | none =>
          simp only [ht]
          exact .inl (.refl s)
        | some t =>
          cases hc : t.credited with
          | false =>
            simp only [ht, hc, Bool.false_eq_true, if_false]
            exact .inl (.refl s)
          | true =>
            by_cases hb : fcWindow - t.credit.free < bytes.toNat
            · simp only [ht, hc, if_true, hb]
              obtain ⟨p, htp, hq⟩ := reset_shape id .creditBeyondWindow s
              exact .inr ⟨p, id, .creditBeyondWindow, htp, hq⟩
            · simp only [ht, hc, if_true, hb, if_false]
              exact .inl (touched_modifyTask (f := addCredit bytes.toNat) (fun _ => rfl) tid s)

/-- Whether a HELLO now comes too late to grant a window; no stream was made before. -/
def late (cfg : EngineConfig) (s : Engine) : Bool := if cfg.initiates then s.accepting else s.opened

/-- The engine behind a HELLO. -/
def heard (cfg : EngineConfig) (window : Option UInt32) (session : Option (SessionWindow ℕ)) (s : Engine) :
    Engine :=
  { s with session := session, recv := { s.recv with on := window.isSome },
           peerSpeaksFc := s.peerSpeaksFc || cfg.initiates, accepting := s.accepting || cfg.initiates }

/-- What a HELLO does: too late for a window, the window it grants, or a window that is too small. -/
inductive Heard (cfg : EngineConfig) (s : Engine) (window : Option UInt32) : Engine → Prop
  | late (hl : s.late cfg = true) : Heard cfg s window (s.heard cfg window s.session)
  | granted (session : Option (SessionWindow ℕ)) (hl : s.late cfg = false)
      (hg : session = none ∨
        ∃ send, SessionSend.fromHello (window.getD 0) = .ok (some send) ∧ session = some ⟨send, []⟩) :
      Heard cfg s window (s.heard cfg window session)
  | below (on : Bool) (hl : s.late cfg = false)
      (hf : SessionSend.fromHello (κ := ℕ) (window.getD 0) = .error ()) :
      Heard cfg s window { s with recv := { s.recv with on := on }, ended := some .windowBelowMinimum }

theorem heard_hello (hend : s.ended = none) (window : Option UInt32) :
    Heard cfg s window (match cfg.side with
      | .initiate _ => s.initiateHello window
      | .accept _ => s.acceptHello window) := by
  cases hside : cfg.side with
  | initiate target =>
    have hi : cfg.initiates = true := by rw [EngineConfig.initiates, hside]
    have hheard : ∀ session, s.heard cfg window session =
        { s with session := session, recv := { s.recv with on := window.isSome }, peerSpeaksFc := true,
                 accepting := true } := by
      intro session
      simp only [heard, hi, Bool.or_true]
    cases ha : s.accepting with
    | true =>
      have hl : s.late cfg = true := by rw [Engine.late, if_pos hi, ha]
      have h : Heard cfg s window _ := .late hl
      rw [hheard] at h
      simpa [initiateHello, ha, hend] using h
    | false =>
      have hl : s.late cfg = false := by rw [Engine.late, if_pos hi, ha]
      simp only [initiateHello, ha, Bool.false_eq_true, if_false, grantWindow]
      cases hf : SessionSend.fromHello (κ := ℕ) (window.getD 0) with
      | error u =>
        have h := Heard.below s.recv.on hl hf
        simpa [endWith] using h
      | ok grant =>
        cases grant with
        | none =>
          have h : Heard cfg s window _ := .granted none hl (.inl rfl)
          rw [hheard] at h
          simpa [hend] using h
        | some send =>
          have h : Heard cfg s window _ := .granted (some ⟨send, []⟩) hl (.inr ⟨send, hf, rfl⟩)
          rw [hheard] at h
          simpa [hend] using h
  | accept gate =>
    have hi : cfg.initiates = false := by rw [EngineConfig.initiates, hside]
    have hheard : ∀ session, s.heard cfg window session =
        { s with session := session, recv := { s.recv with on := window.isSome } } := by
      intro session
      simp only [heard, hi, Bool.or_false]
    cases ho : s.opened with
    | true =>
      have hl : s.late cfg = true := by rw [Engine.late, hi, if_neg (by simp), ho]
      have h : Heard cfg s window _ := .late hl
      rw [hheard] at h
      simpa [acceptHello, ho] using h
    | false =>
      have hl : s.late cfg = false := by rw [Engine.late, hi, if_neg (by simp), ho]
      simp only [acceptHello, ho, Bool.false_eq_true, if_false, grantWindow]
      cases hf : SessionSend.fromHello (κ := ℕ) (window.getD 0) with
      | error u =>
        have h := Heard.below window.isSome hl hf
        simpa [endWith, ho] using h
      | ok grant =>
        cases grant with
        | none =>
          have h : Heard cfg s window _ := .granted none hl (.inl rfl)
          rw [hheard] at h
          simpa [ho] using h
        | some send =>
          have h : Heard cfg s window _ := .granted (some ⟨send, []⟩) hl (.inr ⟨send, hf, rfl⟩)
          rw [hheard] at h
          simpa [ho] using h

/-- The steps of an engine that resets no stream. -/
inductive Shape (cfg : EngineConfig) (s : Engine) : EngineEvent → Engine → List Frame → Prop
  | ctrlNone (hc : s.ctrl = []) : Shape cfg s .pollCtrl { s with ctrlEmpty := true } []
  | ctrlSome (f : Frame) (ctrl : List Frame) (hc : s.ctrl = f :: ctrl) :
      Shape cfg s .pollCtrl { s with ctrl := ctrl, ctrlEmpty := false } [f]
  | outNone (ho : s.out = []) : Shape cfg s .pollOut { s with ctrlEmpty := false } []
  | outSome (f : Frame) (out : List Frame) (hc : s.ctrlEmpty = true) (ho : s.out = f :: out) :
      Shape cfg s .pollOut { s with out := out, ctrlEmpty := false } [f]
  | writeError : Shape cfg s .writeError { s with writerGone := true } []
  | touched (e : EngineEvent) (s' : Engine) (he : ∀ f, e ≠ .frame f) (ht : s.Touched s') : Shape cfg s e s' []
  | flags (e : EngineEvent) (accepting helloDeadline stopping : Bool) (he : ∀ f, e ≠ .frame f)
      (ha : accepting = s.accepting ∨ accepting = true) :
      Shape cfg s e { s with accepting := accepting, helloDeadline := helloDeadline, stopping := stopping } []
  | gone (e : EngineEvent) (why : EndReason) (he : ∀ f, e ≠ .frame f)
      (hw : why = .readFailed ∨ why = .deadPeer ∨ why = .writeSideEnded) : Shape cfg s e (s.endWith why) []
  | flush : Shape cfg s .flush (s.sendAck s.recv.flush) []
  | ignored (f : Frame) (s' : Engine) (hf : f.streamOf = none) (ht : s.Touched s')
      (hc : cfg.fcEnabled = true →
        parseControl f.payload = none ∨ ∃ id bytes, parseControl f.payload = some (.window id bytes)) :
      Shape cfg s (.frame f) s' []
  | hello (payload : Bytes) (window : Option UInt32) (s' : Engine) (hfc : cfg.fcEnabled = true)
      (hp : parseControl payload = some (.hello window)) (hh : Heard cfg s window s') :
      Shape cfg s (.frame (.data controlId payload)) s' []
  | swindow (payload : Bytes) (bytes : UInt32) (hfc : cfg.fcEnabled = true)
      (hp : parseControl payload = some (.swindow bytes)) :
      Shape cfg s (.frame (.data controlId payload)) (s.onSWindow bytes.toNat) []
  | flood (payload : Bytes) (id : UInt32) (hfc : cfg.fcEnabled = true)
      (hp : parseControl payload = some (.fcOn id)) (hc : maxPendingFc ≤ s.pendingFc.card) :
      Shape cfg s (.frame (.data controlId payload)) (s.endWith .controlFlood) []
  | fcOn (payload : Bytes) (id : UInt32) (hfc : cfg.fcEnabled = true)
      (hp : parseControl payload = some (.fcOn id)) :
      Shape cfg s (.frame (.data controlId payload)) { s with pendingFc := insert id s.pendingFc } []
  | data (id : UInt32) (payload : Bytes) (s' : Engine) (hid : id ≠ controlId)
      (ht : Touched (s.sendAck (s.recv.received payload.length)) s') :
      Shape cfg s (.frame (.data id payload)) s' []
  | close (id : UInt32) (reason : Option String) (s' : Engine)
      (ht : Touched { s with pendingFc := s.pendingFc.erase id } s') :
      Shape cfg s (.frame (.close id reason)) s' []
  | openIgnored (id : UInt32) (target : String) (hs : cfg.initiates = true) :
      Shape cfg s (.frame (.open id target)) s []
  | «open» (id : UInt32) (target : String) (s' : Engine) (hs : cfg.initiates = false)
      (hn : s.opening = none) (ho : Opening cfg s id s') : Shape cfg s (.frame (.open id target)) s' []
  | connection (target : String) (s' : Engine) (hs : cfg.side = .initiate target) (hn : s.opening = none)
      (hc : Connecting cfg s target s') : Shape cfg s .connection s' []
  | sendOpen (target : String) (s' : Engine) (hs : cfg.side = .initiate target)
      (hc : SendingOpen s target s') : Shape cfg s .sendOpen s' []
  | pump (tid : ℕ) (pe : PumpEvent) (s' : Engine) (hq : s.onPump tid pe = some s') :
      Shape cfg s (.pump tid pe) s' []

theorem Touched.resets (h : s.Touched s') : s'.resets = s.resets := by
  rw [h.eq]

/-- The steps of an engine: those that reset no stream, and the reset of a stream by a frame that is
otherwise such a step. -/
inductive Took (cfg : EngineConfig) (s : Engine) (e : EngineEvent) (s' : Engine) (w : List Frame) : Prop
  | shape (h : Shape cfg s e s' w)
  | reset (p : Engine) (id : UInt32) (why : ResetReason) (h : Shape cfg s e p []) (hr : p.resets = s.resets)
      (hs : s' = p.resetting id why) (hw : w = [])

theorem took_turn (h : s.Tables cfg) (hend : s.ended = none) {e : EngineEvent}
    (ho : s.opening = none ∨ e = .sendOpen) (hq : s.turn cfg e = some s') : Took cfg s e s' [] := by
  have hnone : e ≠ .sendOpen → s.opening = none := fun he => ho.resolve_right he
  cases turn_cases hq with
  | connection target s' hs hc =>
    exact .shape (.connection target s' hs (hnone (by simp)) (connecting_onConnection hend hc))
  | sendOpen target s' hs hc => exact .shape (.sendOpen target s' hs (sendingOpen_onSendOpen hend hc))
  | frame f =>
    cases f with
    | data id payload =>
      simp only [onFrame]
      by_cases hid : id = controlId
      · subst hid
        rw [if_pos rfl]
        by_cases hfc : cfg.fcEnabled = true
        · rcases onControl_shape hfc payload s with ⟨w, hp, hs⟩ | ⟨b, hp, hs⟩ | ⟨k, hp, ⟨hc, hs⟩ | ⟨hc, hs⟩⟩ |
            ⟨hp, ht | ⟨p, id, why, ht, hs⟩⟩
          · rw [hs]
            exact .shape (.hello payload w _ hfc hp (heard_hello hend w))
          · rw [hs]
            exact .shape (.swindow payload b hfc hp)
          · rw [hs]
            exact .shape (.flood payload k hfc hp hc)
          · rw [hs]
            exact .shape (.fcOn payload k hfc hp)
          · exact .shape (.ignored _ _ rfl ht fun _ => hp)
          · exact .reset p id why (.ignored _ _ rfl ht fun _ => hp) ht.resets hs rfl
        · have hs : s.onControl cfg payload = s := if_neg hfc
          rw [hs]
          exact .shape (.ignored _ _ rfl (.refl s) fun hf => absurd hf hfc)
      · rw [if_neg hid]
        rcases onData_shape id payload s with ht | ⟨p, why, ht, hs⟩
        · exact .shape (.data id payload _ hid ht)
        · exact .reset p id why (.data id payload p hid ht) (ht.resets.trans (sendAck_resets _ s)) hs rfl
    | close id reason => exact .shape (.close id reason _ (touched_onClose id reason s))
    | «open» id target =>
      simp only [onFrame]
      split
      · rename_i hs
        exact .shape (.openIgnored id target (by rw [EngineConfig.initiates, hs]))
      · rename_i gate hs
        exact .shape (.open id target _ (by rw [EngineConfig.initiates, hs]) (hnone (by simp))
          (opening_onOpen gate id target))
  | join tid s' hj => exact .shape (.touched _ _ (by simp) (h.touched_onJoin hj))
  | flush => exact .shape .flush
  | flags e accepting helloDeadline stopping he hne ha =>
    exact .shape (.flags e accepting helloDeadline stopping he ha)
  | gone e why he hne hw => exact .shape (.gone e why he hw)

theorem took_step (h : s.Tables cfg) {e : EngineEvent} {w : List Frame} (hq : s.step cfg e = some (s', w)) :
    Took cfg s e s' w := by
  obtain ⟨hend, hc⟩ := step_cases hq
  rcases hc with ⟨rfl, hc, rfl, rfl⟩ | ⟨f, ctrl, rfl, hc, rfl, rfl⟩ | ⟨rfl, ho, rfl, rfl⟩ |
    ⟨f, out, rfl, hc, ho, rfl, rfl⟩ | ⟨rfl, rfl, rfl⟩ | ⟨rfl, hu, rfl⟩ | ⟨tid, pe, rfl, hp, rfl⟩ |
    ⟨-, ho, ht, rfl⟩
  · exact .shape (.ctrlNone hc)
  · exact .shape (.ctrlSome f ctrl hc)
  · exact .shape (.outNone ho)
  · exact .shape (.outSome f out hc ho)
  · exact .shape .writeError
  · exact .shape (.touched _ _ (by simp) (touched_onUnblock hu))
  · exact .shape (.pump tid pe s' hp)
  · exact took_turn h hend ho ht

theorem shape_step (h : s.Tables cfg) {e : EngineEvent} {w : List Frame}
    (hq : s.step cfg e = some (s', w)) (hr : s'.resets = s.resets) : Shape cfg s e s' w := by
  cases took_step h hq with
  | shape hs => exact hs
  | reset p id why hs hp hs' =>
    rw [hs', resetting, ctrlSend_resets, hp] at hr
    simp at hr

theorem onData_resets (h : s.Tables cfg) (hn : (s.tasks.map Task.id).Nodup) (id : UInt32) (payload : Bytes) :
    (s.onData id payload).resets = s.resets ∨
      ∃ t, (s.view id).task = some t ∧ t.credited = true ∧ fcWindow < t.pending + payload.length := by
  have hack : s.sendAck (s.recv.received payload.length) =
      { s with recv := (s.sendAck (s.recv.received payload.length)).recv,
               ctrl := (s.sendAck (s.recv.received payload.length)).ctrl,
               ended := (s.sendAck (s.recv.received payload.length)).ended } := by
    unfold sendAck ctrlSend
    split
    · split
      · rfl
      · split <;> rfl
    · rfl
  have hq := h.sendAck (s.recv.received payload.length)
  unfold onData
  dsimp only
  generalize s.sendAck (s.recv.received payload.length) = q at hack hq ⊢
  have hr : q.resets = s.resets := by rw [hack]
  split
  · exact .inl hr
  · split
    · exact .inl hr
    · rename_i tid he
      have ht := touched_deliver tid payload q
      cases hd : q.deliver tid payload with
      | mk ok p =>
        rw [hd] at ht
        cases ok with
        | true => exact .inl (ht.resets.trans hr)
        | false =>
          right
          obtain ⟨t, htask, hid⟩ := hq.entry_task he
          have hqs : q.tasks = s.tasks := by rw [hack]
          refine ⟨t, view_task hn (hqs ▸ htask) hid, ?_⟩
          unfold deliver at hd
          split at hd
          · rename_i hx
            simpa [htask, exceedsCredit] using hx
          · cases hd

theorem onControl_resets (h : s.Tables cfg) (hn : (s.tasks.map Task.id).Nodup) (payload : Bytes) :
    (s.onControl cfg payload).resets = s.resets ∨
      ∃ i bytes t, (Frame.data controlId payload).windowFor i = some bytes ∧ (s.view i).task = some t ∧
        t.credited = true ∧ fcWindow - t.credit.free < bytes.toNat := by
  have hgrant : ∀ (q : Engine) w, (q.grantWindow w).resets = q.resets := by
    intro q w
    unfold grantWindow
    split <;> rfl
  by_cases hfc : cfg.fcEnabled = true
  · cases hp : parseControl payload with
    | none =>
      left
      simp only [onControl, hfc, if_true, applyControl, hp]
    | some c =>
      cases c with
      | hello window =>
        simp only [onControl, hfc, if_true, applyControl, hp]
        left
        split
        · have hg : (if s.accepting then s else s.grantWindow window).resets = s.resets := by
            split
            · rfl
            · exact hgrant s window
          unfold initiateHello
          dsimp only
          generalize (if s.accepting then s else s.grantWindow window) = q at hg ⊢
          split
          · exact hg
          · exact hg
        · unfold acceptHello
          dsimp only
          split
          · rfl
          · exact hgrant _ window
      | swindow bytes =>
        simp only [onControl, hfc, if_true, applyControl, hp, onSWindow]
        left
        split
        · rfl
        · split <;> rfl
      | fcOn id =>
        by_cases hc : maxPendingFc ≤ s.pendingFc.card
        · simp only [onControl, hfc, if_true, applyControl, hp, hc]
          exact .inl rfl
        · simp only [onControl, hfc, if_true, applyControl, hp, hc, if_false]
          exact .inl trivial
      | window k bytes =>
        have hf : (Frame.data controlId payload).windowFor k = some bytes := by
          simp [Frame.windowFor, hp]
        simp only [onControl, hfc, if_true, applyControl, hp]
        cases he : s.entries.lookup k with
        | none => exact .inl rfl
        | some tid =>
          obtain ⟨t, ht, hid⟩ := h.entry_task he
          simp only [ht]
          cases hc : t.credited with
          | false => exact .inl rfl
          | true =>
            by_cases hx : fcWindow - t.credit.free < bytes.toNat
            · exact .inr ⟨k, bytes, t, hf, view_task hn ht hid, hc, hx⟩
            · simp only [hx, if_true, if_false]
              exact .inl rfl
  · left
    rw [show s.onControl cfg payload = s from if_neg hfc]

/-- A step that resets a stream: the peer exceeded its credit, or granted credit beyond the window. -/
theorem resets_cases (h : s.Tables cfg) (hn : (s.tasks.map Task.id).Nodup) {e : EngineEvent}
    {w : List Frame} (hq : s.step cfg e = some (s', w)) :
    s'.resets = s.resets ∨
    (∃ i payload t, e = .frame (.data i payload) ∧ i ≠ controlId ∧ (s.view i).task = some t ∧
      t.credited = true ∧ fcWindow < t.pending + payload.length) ∨
    (∃ i f bytes t, e = .frame f ∧ f.windowFor i = some bytes ∧ (s.view i).task = some t ∧
      t.credited = true ∧ fcWindow - t.credit.free < bytes.toNat) := by
  obtain ⟨hend, hc⟩ := step_cases hq
  rcases hc with ⟨rfl, -, rfl, -⟩ | ⟨f, ctrl, rfl, -, rfl, -⟩ | ⟨rfl, -, rfl, -⟩
    | ⟨f, out, rfl, -, -, rfl, -⟩ |
    ⟨rfl, rfl, -⟩ | ⟨rfl, hu, -⟩ | ⟨tid, pe, rfl, hp, -⟩ | ⟨-, -, ht, -⟩
  · exact .inl rfl
  · exact .inl rfl
  · exact .inl rfl
  · exact .inl rfl
  · exact .inl rfl
  · exact .inl (touched_onUnblock hu).resets
  · obtain ⟨t, m, session, -, -, -, -, rfl⟩ := onPump_eq hp
    exact .inl rfl
  · cases turn_cases ht with
    | frame f =>
      cases f with
      | data id payload =>
        simp only [onFrame]
        by_cases hid : id = controlId
        · rw [if_pos hid]
          rcases onControl_resets h hn payload with hr | ⟨i, bytes, t, hf, ht, hc, hx⟩
          · exact .inl hr
          · exact .inr (.inr ⟨i, _, bytes, t, by rw [hid], hf, ht, hc, hx⟩)
        · rw [if_neg hid]
          rcases onData_resets h hn id payload with hr | ⟨t, ht, hc, hx⟩
          · exact .inl hr
          · exact .inr (.inl ⟨id, payload, t, rfl, hid, ht, hc, hx⟩)
      | close id reason => exact .inl (touched_onClose id reason s).resets
      | «open» id target =>
        left
        simp only [onFrame]
        split
        · rfl
        · rename_i gate _
          have ho : Opening cfg s id _ := opening_onOpen gate id target
          generalize s.onOpen cfg gate id target = q at ho ⊢
          cases ho with
          | refused reason => exact ctrlSend_resets _ _
          | _ => rfl
    | connection target s' hs hc =>
      left
      cases connecting_onConnection hend hc <;> rfl
    | sendOpen target s' hs hc =>
      left
      cases sendingOpen_onSendOpen hend hc <;> rfl
    | join tid s' hj => exact .inl (h.touched_onJoin hj).resets
    | flush => exact .inl (sendAck_resets _ _)
    | flags => exact .inl rfl
    | gone => exact .inl rfl

end Engine

end CtAgent.Forward
