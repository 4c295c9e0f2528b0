import CtAgent.Forward.Pair
import CtAgent.Forward.PairWindow

/-! The session windows of two engines in every run: what each sent is on its way, waits for its
acknowledgement or is acknowledged, whatever becomes of the single streams. -/
namespace CtAgent.Forward
open CtAgent.Lib

theorem valid_lt {window : ℕ} (h : ValidWindow window) : window < 2 ^ 32 := by
  rcases h with rfl | ⟨-, hle⟩
  · decide
  · exact Nat.lt_of_le_of_lt hle (by decide)

theorem valid_toNat {window : ℕ} (h : ValidWindow window) : (UInt32.ofNat window).toNat = window := by
  rw [UInt32.toNat_ofNat']
  exact Nat.mod_eq_of_lt (valid_lt h)

/-- A valid window is granted as it is. -/
theorem valid_grant {window : ℕ} (h : ValidWindow window) :
    min (UInt32.ofNat window).toNat sessionWindowMax = window := by
  rw [valid_toNat h]
  rcases h with rfl | ⟨-, hle⟩
  · rfl
  · exact Nat.min_eq_left hle

theorem valid_hello {window : ℕ} (h : ValidWindow window) :
    SessionSend.fromHello (κ := ℕ) (UInt32.ofNat window) ≠ .error () := by
  have hg := valid_grant h
  simp only [SessionSend.fromHello, hg]
  rcases h with rfl | ⟨hle, -⟩
  · simp
  · rw [if_neg (by simp only [sessionWindowMin, dataChunkLen] at hle; omega), if_neg (Nat.not_lt.mpr hle)]
    simp

/-- The HELLO of an engine of this repository. -/
theorem hello_window {peer : EngineConfig} {payload : Bytes} {window : Option UInt32}
    (hf : (Frame.data controlId payload).From peer) (hp : parseControl payload = some (.hello window)) :
    peer.fcEnabled = true ∧ window = some (UInt32.ofNat peer.window) := by
  have h := hf rfl
  rw [hp] at h
  exact h

namespace Engine
variable {cfg : EngineConfig} {grant : ℕ} {s s' : Engine} {e : EngineEvent} {w : List Frame}

theorem useWindow_isSome {tid : ℕ} {use : WindowUse} {session session' : Option (SessionWindow ℕ)}
    (h : useWindow tid use session = some session') : session'.isSome = session.isSome := by
  cases session with
  | none => cases use <;> simp [useWindow] at h <;> rw [← h]
  | some w =>
    cases use with
    | take firstChunk bytes ready =>
      simp only [useWindow] at h
      split at h
      · cases h
        rfl
      · cases h
    | poll =>
      simp only [useWindow, Option.map_eq_some_iff] at h
      obtain ⟨w', -, rfl⟩ := h
      rfl
    | queued =>
      simp only [useWindow, Option.map_eq_some_iff] at h
      obtain ⟨w', -, rfl⟩ := h
      rfl
    | _ =>
      cases h
      rfl

/-- Only a HELLO makes an engine speak flow control or use a session window. -/
theorem heard_step (hs : Shape cfg s e s' w) :
    (s'.peerSpeaksFc = s.peerSpeaksFc ∧ s'.session.isSome = s.session.isSome) ∨
    ∃ payload window, e = .frame (.data controlId payload) ∧ parseControl payload = some (.hello window) ∧
      (s.peerSpeaksFc = true → s'.peerSpeaksFc = true) := by
  cases hs with
  | touched e s' he ht => exact .inl ⟨by rw [ht.eq], by rw [ht.eq]⟩
  | flush => exact .inl ⟨by rw [sendAck_eq], by rw [sendAck_eq]⟩
  | ignored f s' hf ht => exact .inl ⟨by rw [ht.eq], by rw [ht.eq]⟩
  | hello payload window s' hfc hp hh =>
    refine .inr ⟨payload, window, rfl, hp, fun h => ?_⟩
    cases hh with
    | below => exact h
    | _ => simp only [heard, h, Bool.true_or]
  | swindow payload bytes =>
    rcases onSWindow_cases bytes.toNat s with ⟨-, hq⟩ | ⟨win, hwin, -, hq⟩ | ⟨win, -, -, hq⟩
    · rw [hq]
      exact .inl ⟨rfl, rfl⟩
    · rw [hq, hwin]
      exact .inl ⟨rfl, rfl⟩
    · rw [hq]
      exact .inl ⟨rfl, rfl⟩
  | data id payload s' hid ht => exact .inl ⟨by rw [ht.eq, sendAck_eq], by rw [ht.eq, sendAck_eq]⟩
  | close id reason s' ht => exact .inl ⟨by rw [ht.eq], by rw [ht.eq]⟩
  | «open» id target s' hi hn ho =>
    cases ho with
    | refused reason =>
      rw [ctrlSend_eq]
      exact .inl ⟨rfl, rfl⟩
    | _ => exact .inl ⟨rfl, rfl⟩
  | connection target s' hside hn hc => cases hc <;> exact .inl ⟨rfl, rfl⟩
  | sendOpen target s' hside hc => cases hc <;> exact .inl ⟨rfl, rfl⟩
  | pump tid pe s' hq =>
    obtain ⟨t, m, session, -, -, -, huse, rfl⟩ := onPump_eq hq
    exact .inl ⟨rfl, useWindow_isSome huse⟩
  | _ => exact .inl ⟨rfl, rfl⟩

/-- Only the HELLO of its peer makes an engine speak flow control or use a session window. -/
theorem heard_from {peer : EngineConfig} (hs : Shape cfg s e s' w) (hfrom : ∀ f ∈ e.input, f.From peer) :
    peer.fcEnabled = true ∨ (s'.peerSpeaksFc = s.peerSpeaksFc ∧ s'.session.isSome = s.session.isSome) := by
  rcases heard_step hs with h | ⟨payload, window, rfl, hp, -⟩
  · exact .inr h
  · exact .inl (hello_window (hfrom _ (List.mem_singleton_self _)) hp).1

theorem speaks_step (hs : Shape cfg s e s' w) (h : s.peerSpeaksFc = true) : s'.peerSpeaksFc = true := by
  rcases heard_step hs with ⟨hsame, -⟩ | ⟨payload, window, -, -, hstays⟩
  · rw [hsame]
    exact h
  · exact hstays h

theorem reset_length (id : UInt32) (why : ResetReason) (s : Engine) :
    (s.reset id why).tasks.length = s.tasks.length := by
  rw [reset, ctrlSend_eq]
  exact (touched_abortEntry id _).length

theorem onData_length (id : UInt32) (payload : Bytes) (s : Engine) :
    (s.onData id payload).tasks.length = s.tasks.length := by
  have hack : (s.sendAck (s.recv.received payload.length)).tasks = s.tasks := by rw [sendAck_eq]
  unfold onData
  dsimp only
  generalize s.sendAck (s.recv.received payload.length) = q at hack ⊢
  rw [← hack]
  split
  · rfl
  · split
    · rfl
    · rename_i tid _
      have hd := (touched_deliver tid payload q).length
      generalize q.deliver tid payload = d at hd ⊢
      obtain ⟨ok, q'⟩ := d
      cases ok with
      | true => exact hd
      | false => exact (reset_length _ _ _).trans hd

theorem onControl_length (payload : Bytes) (s : Engine) :
    (s.onControl cfg payload).tasks.length = s.tasks.length := by
  have hgrant : ∀ (q : Engine) window, (q.grantWindow window).tasks = q.tasks := by
    intro q window
    unfold grantWindow
    split <;> rfl
  by_cases hfc : cfg.fcEnabled = true
  · simp only [onControl, hfc, if_true, applyControl]
    cases hp : parseControl payload with
    | none => rfl
    | some c =>
      cases c with
      | hello window =>
        dsimp only
        split
        · unfold initiateHello
          dsimp only
          have hq : (if s.accepting then s else s.grantWindow window).tasks = s.tasks := by
            split
            · rfl
            · exact hgrant s window
          generalize (if s.accepting then s else s.grantWindow window) = q at hq ⊢
          split <;> exact congrArg List.length hq
        · unfold acceptHello
          dsimp only
          split
          · rfl
          · exact congrArg List.length (hgrant _ window)
      | swindow bytes =>
        rcases onSWindow_cases bytes.toNat s with ⟨-, hq⟩ | ⟨win, -, -, hq⟩ | ⟨win, -, -, hq⟩ <;>
          exact (congrArg (fun q : Engine => q.tasks.length) hq).trans rfl
      | fcOn id =>
        dsimp only
        by_cases hc : maxPendingFc ≤ s.pendingFc.card
        · simp only [hc, if_true]
          rfl
        · simp only [hc, if_false]
      | window id bytes =>
        dsimp only
        cases he : s.entries.lookup id with
        | none => rfl
        | some tid =>
          cases ht : s.tasks[tid]? with
          | none => simp only [ht]
          | some t =>
            cases hc : t.credited with
            | false => simp [ht, hc]
            | true =>
              by_cases hb : fcWindow - t.credit.free < bytes.toNat
              · simp only [ht, hc, hb, if_true]
                exact reset_length _ _ _
              · simp only [ht, hc, hb, if_true, if_false]
                exact (touched_modifyTask (f := addCredit bytes.toNat) (fun _ => rfl) tid s).length
  · rw [show s.onControl cfg payload = s from if_neg hfc]

/-- An engine never forgets a task. -/
theorem length_step (htab : s.Tables cfg) (hq : s.step cfg e = some (s', w)) :
    s.tasks.length ≤ s'.tasks.length := by
  obtain ⟨hend, hc⟩ := step_cases hq
  rcases hc with ⟨-, -, rfl, -⟩ | ⟨f, ctrl, -, -, rfl, -⟩ | ⟨-, -, rfl, -⟩ | ⟨f, out, -, -, -, rfl, -⟩ |
    ⟨-, rfl, -⟩ | ⟨-, hu, -⟩ | ⟨tid, pe, -, hp, -⟩ | ⟨-, -, ht, -⟩
  · exact Nat.le_refl _
  · exact Nat.le_refl _
  · exact Nat.le_refl _
  · exact Nat.le_refl _
  · exact Nat.le_refl _
  · exact (touched_onUnblock hu).length.ge
  · obtain ⟨t, m, session, -, -, -, -, rfl⟩ := onPump_eq hp
    exact (List.length_set).ge
  · cases turn_cases ht with
    | connection target s' hs hcon =>
      cases connecting_onConnection hend hcon with
      | refused => exact Nat.le_refl _
      | backlog => exact Nat.le_refl _
      | announced => exact Nat.le_refl _
      | plain => simp [spawn]
    | sendOpen target s' hs hc =>
      cases sendingOpen_onSendOpen hend hc with
      | backlog => exact Nat.le_refl _
      | sent => simp [spawn]
    | frame f =>
      cases f with
      | data id payload =>
        simp only [onFrame]
        split
        · exact (onControl_length payload s).ge
        · exact (onData_length id payload s).ge
      | close id reason => exact (touched_onClose id reason s).length.ge
      | «open» id target =>
        simp only [onFrame]
        split
        · exact Nat.le_refl _
        · rename_i gate _
          have ho : Opening cfg s id _ := opening_onOpen gate id target
          generalize s.onOpen cfg gate id target = q at ho ⊢
          cases ho with
          | inUse => exact Nat.le_refl _
          | refused reason =>
            rw [ctrlSend_eq]
            exact Nat.le_refl _
          | accepted => simp [spawn, taken]
    | join tid s' hj => exact (htab.touched_onJoin hj).length.ge
    | flush =>
      rw [onFlush, sendAck_eq]
    | flags => exact Nat.le_refl _
    | gone => exact Nat.le_refl _

theorem resetting_eq (id : UInt32) (why : ResetReason) (s : Engine) :
    s.resetting id why = { s with resets := (s.resetting id why).resets, ctrl := (s.resetting id why).ctrl,
                                  ended := (s.resetting id why).ended } := by
  unfold resetting
  rw [ctrlSend_eq]

/-- A reset says nothing that counts for the session window. -/
theorem tally_resetting {μ : Frame → ℕ} (hμ : ∀ id reason, μ (.close id reason) = 0) (id : UInt32)
    (why : ResetReason) (s : Engine) : tally μ (s.resetting id why).ctrl = tally μ s.ctrl :=
  tally_ctrlSend (hμ id _) { s with resets := s.resets ++ [(id, why)] }

theorem ctrl_resetting (id : UInt32) (why : ResetReason) (s : Engine) :
    (s.resetting id why).ctrl = s.ctrl ∨ (s.resetting id why).ctrl = s.ctrl ++ [abortFrame id] := by
  unfold resetting ctrlSend
  split
  · exact .inl rfl
  · split
    · exact .inl rfl
    · exact .inr rfl

theorem ended_resetting {id : UInt32} {why : ResetReason} {s : Engine}
    (h : (s.resetting id why).ended = none) :
    s.ended = none := by
  by_contra hs
  have hsome : ({ s with resets := s.resets ++ [(id, why)] } : Engine).ended.isSome = true :=
    Option.isSome_iff_ne_none.mpr hs
  rw [resetting, ctrlSend_ended _ hsome] at h
  exact hs h

theorem tables_of_resetting {id : UInt32} {why : ResetReason} (h : (s.resetting id why).Tables cfg) :
    s.Tables cfg := by
  rw [resetting_eq] at h
  exact { h with }

theorem settled_resetting (id : UInt32) (why : ResetReason) (s : Engine) :
    (s.resetting id why).settled = s.settled := by
  have hrecv : (s.resetting id why).recv = s.recv := by rw [resetting_eq]
  have hout : (s.resetting id why).out = s.out := by rw [resetting_eq]
  have ht := tally_resetting (μ := Frame.acks) (fun _ _ => rfl) id why s
  simp only [settled, tally_append, hrecv, hout, ht]

end Engine

/-- One direction of the session: the sender's side of it, and the receiver's as far as it answers. -/
structure Half (cfg peer : EngineConfig) (snd rcv : Engine) (wire back : List Frame) : Prop where
  tables : snd.Tables cfg
  sent : ∀ f ∈ snd.ctrl ++ snd.out ++ wire, f.From cfg
  window : snd.Windowed cfg peer.window
  granted : snd.session.isSome = true → peer.fcEnabled = true
  hello : cfg.fcEnabled = true → peer.fcEnabled = true → rcv.ended = none → HelloFirst cfg snd rcv wire
  acked : Acked snd rcv wire back

section
variable {cfg peer : EngineConfig} {snd snd' rcv rcv' : Engine} {wire wire' back back' w : List Frame}
  {e : EngineEvent}

theorem Half.window_lt (h : Half cfg peer snd rcv wire back) (hvalid : ValidWindow peer.window) :
    ∀ win, snd.session = some win → win.send.unacknowledged < 2 ^ 32 :=
  fun win hw => Nat.lt_of_le_of_lt (h.window.serves win hw).unacknowledged_le (valid_lt hvalid)

/-- A step of the sender. -/
theorem Half.sends (h : Half cfg peer snd rcv wire back) (hvalid : ValidWindow peer.window)
    (hend : snd.ended = none) (hs : Engine.Shape cfg snd e snd' w) (htab : snd'.Tables cfg)
    (hback : back = e.input ++ back') (hfrom : ∀ f ∈ e.input, f.From peer) :
    Half cfg peer snd' rcv (wire ++ w) back' := by
  have hqueue := Engine.queue_step hend hs
  have hgrant : ∀ payload window, e = .frame (.data controlId payload) →
      parseControl payload = some (.hello window) → min (window.getD 0).toNat sessionWindowMax =
        peer.window := by
    rintro payload window rfl hp
    obtain ⟨-, rfl⟩ := hello_window (hfrom _ (List.mem_singleton_self _)) hp
    exact valid_grant hvalid
  refine ⟨htab, fun f hf => ?_, h.window.step h.tables hgrant hs, ?_, fun hc hp hr => ?_, ?_⟩
  · have hq := Engine.from_step h.tables hqueue (fun f hf => h.sent f (List.mem_append_left _ hf)) f
    simp only [List.mem_append] at hf hq
    rcases hf with (hf | hf) | hf | hf
    · exact hq (.inl (.inl hf))
    · exact hq (.inl (.inr hf))
    · exact h.sent f (List.mem_append_right _ hf)
    · exact hq (.inr hf)
  · rcases Engine.heard_from hs hfrom with hb | ⟨-, hsess⟩
    · exact fun _ => hb
    · rw [hsess]
      exact h.granted
  · exact (h.hello hc hp hr).sends hqueue
  · exact h.acked.sends h.window h.tables hs hback

/-- A step of the receiver. -/
theorem Half.receives (h : Half cfg peer snd rcv wire back) (hvalid : ValidWindow peer.window)
    (hend : rcv.ended = none) (htab : rcv.Tables peer) (hs : Engine.Shape peer rcv e rcv' w)
    (hwire : wire = e.input ++ wire') : Half cfg peer snd rcv' wire' (back ++ w) := by
  have hfrom : ∀ f ∈ wire, f.From cfg := fun f hf => h.sent f (List.mem_append_right _ hf)
  have hfirst : snd.session.isSome = true → HelloFirst cfg snd rcv wire :=
    fun hw => h.hello (h.window.enabled hw) (h.granted hw) hend
  refine ⟨h.tables, fun f hf => h.sent f ?_, h.window, h.granted, fun hc hp hr => ?_, ?_⟩
  · rw [hwire]
    simp only [List.mem_append] at hf ⊢
    tauto
  · exact (h.hello hc hp hend).receives hs hp hwire hr hfrom
  · exact h.acked.receives htab hend hs hwire hfirst (h.window_lt hvalid)

/-- The note and the Close of a stream the sender reset. -/
theorem Half.resets {p : Engine} {id : UInt32} {why : ResetReason} (h : Half cfg peer p rcv wire back)
    (htab : (p.resetting id why).Tables cfg) : Half cfg peer (p.resetting id why) rcv wire back := by
  have heq := Engine.resetting_eq id why p
  have hout : (p.resetting id why).out = p.out := by rw [heq]
  have hsess : (p.resetting id why).session = p.session := by rw [heq]
  have htasks : (p.resetting id why).tasks = p.tasks := by rw [heq]
  have hempty : (p.resetting id why).ctrlEmpty = p.ctrlEmpty := by rw [heq]
  have hflight : flight (p.resetting id why) rcv wire back = flight p rcv wire back := by
    have ht := Engine.tally_resetting (μ := Frame.streamLen) (fun _ _ => rfl) id why p
    simp only [flight, tally_append, hout, ht]
  refine ⟨htab, fun f hf => ?_, ?_, ?_, fun hc hp hr => ?_, ?_⟩
  · rcases Engine.ctrl_resetting id why p with hc | hc
    · rw [hc, hout] at hf
      exact h.sent f hf
    · rw [hc, hout] at hf
      simp only [List.mem_append, List.mem_singleton] at hf
      rcases hf with ((hf | rfl) | hf) | hf
      · exact h.sent f (by simp [hf])
      · trivial
      · exact h.sent f (by simp [hf])
      · exact h.sent f (by simp [hf])
  · rw [heq]
    exact { h.window with }
  · rw [hsess]
    exact h.granted
  · rcases h.hello hc hp hr with hon | hwire | ⟨hw, he, rest, hctrl⟩
    · exact .inl hon
    · exact .inr (.inl hwire)
    · refine .inr (.inr ⟨hw, hempty.trans he, ?_⟩)
      rcases Engine.ctrl_resetting id why p with hq | hq
      · exact ⟨rest, hq.trans hctrl⟩
      · exact ⟨rest ++ [abortFrame id], by rw [hq, hctrl, List.cons_append]⟩
  · refine ⟨fun hn => ?_, fun win hw => ?_, fun hr win hw => ?_⟩
    · rw [hflight]
      exact h.acked.idle (htasks ▸ hn)
    · rw [hflight]
      exact h.acked.bound win (hsess ▸ hw)
    · rw [hflight]
      exact h.acked.whole hr win (hsess ▸ hw)

/-- The note and the Close of a stream the receiver reset. -/
theorem Half.peerResets {p : Engine} {id : UInt32} {why : ResetReason} (h : Half cfg peer snd p wire back) :
    Half cfg peer snd (p.resetting id why) wire back := by
  have hflight : flight snd (p.resetting id why) wire back = flight snd p wire back := by
    simp only [flight, Engine.settled_resetting]
  have hrecv : (p.resetting id why).recv = p.recv := by rw [Engine.resetting_eq]
  refine ⟨h.tables, h.sent, h.window, h.granted, fun hc hp hr => ?_, ?_⟩
  · rcases h.hello hc hp (Engine.ended_resetting hr) with hon | hrest
    · exact .inl (by rw [hrecv]; exact hon)
    · exact .inr hrest
  · refine ⟨fun hn => ?_, fun win hw => ?_, fun hr win hw => ?_⟩
    · rw [hflight]
      exact h.acked.idle hn
    · rw [hflight]
      exact h.acked.bound win hw
    · rw [hflight]
      exact h.acked.whole (Engine.ended_resetting hr) win hw

/-- A step of either engine, for the half it sends on and the half it receives on. -/
theorem halves_step {near far : Engine} {out inn inn' : List Frame} (hnear : Half cfg peer near far out inn)
    (hfar : Half peer cfg far near inn out) (hvalid : ValidWindow cfg.window ∧ ValidWindow peer.window)
    {near' : Engine} (hs : near.step cfg e = some (near', w)) (hinn : inn = e.input ++ inn') :
    Half cfg peer near' far (out ++ w) inn' ∧ Half peer cfg far near' inn' (out ++ w) := by
  obtain ⟨hend, -⟩ := Engine.step_cases hs
  have htab := hnear.tables.step hs
  have hfrom : ∀ f ∈ e.input, f.From peer := by
    intro f hf
    apply hfar.sent f
    rw [hinn]
    exact List.mem_append_right _ (List.mem_append_left _ hf)
  cases Engine.took_step hnear.tables hs with
  | shape h =>
    exact ⟨hnear.sends hvalid.2 hend h htab hinn hfrom, hfar.receives hvalid.1 hend hnear.tables h hinn⟩
  | reset p id why h hr hs' hw =>
    subst hs' hw
    have hp := Engine.tables_of_resetting htab
    exact ⟨(hnear.sends hvalid.2 hend h hp hinn hfrom).resets htab,
      (hfar.receives hvalid.1 hend hnear.tables h hinn).peerResets⟩

end

/-- What holds in every state of two engines of this repository. -/
structure Pair.Base (cfg : PairConfig) (s : Pair) : Prop where
  ab : Half cfg.a cfg.b s.a s.b s.ab s.ba
  ba : Half cfg.b cfg.a s.b s.a s.ba s.ab

namespace Pair
variable {cfg : PairConfig} {s s' : Pair}

theorem helloFirst_init {cfg : EngineConfig} (hfc : cfg.fcEnabled = true) (rcv : Engine) :
    HelloFirst cfg (.init cfg) rcv [] :=
  .inr (.inr ⟨rfl, rfl, [], by simp only [Engine.init, hfc, if_true]⟩)

theorem flight_init (cfg peer : EngineConfig) : flight (.init cfg) (.init peer) [] [] = 0 := by
  have hsent : tally Frame.streamLen (Engine.init cfg).ctrl = 0 := by
    simp only [Engine.init]
    split <;> simp [helloFrame, Frame.streamLen]
  have hack : tally Frame.acks (Engine.init peer).ctrl = 0 := by
    have hp := parseControl_hello (UInt32.ofNat peer.window)
    simp only [Engine.init]
    split
    · rw [helloFrame_eq, tally_cons, Engine.acks_control (by simp [hp])]
      rfl
    · rfl
  simp only [flight, Engine.settled, tally_append, hsent, hack]
  rfl

theorem acked_init (cfg peer : EngineConfig) : Acked (.init cfg) (.init peer) [] [] where
  idle _ := flight_init cfg peer
  bound win hw := by cases hw
  whole _ win hw := by cases hw

theorem half_init (cfg peer : EngineConfig) : Half cfg peer (.init cfg) (.init peer) [] [] where
  tables := Engine.tables_init _
  sent f hf := Engine.from_init _ f (by simpa using hf)
  window := Engine.windowed_init _ _
  granted h := by cases h
  hello hfc _ _ := helloFirst_init hfc _
  acked := acked_init _ _

theorem base_init (cfg : PairConfig) : (init cfg).Base cfg := ⟨half_init _ _, half_init _ _⟩

theorem Base.step {e : PairEvent} (h : s.Base cfg) (hs : s.step cfg e = some s') : s'.Base cfg := by
  cases e with
  | a e =>
    obtain ⟨w, hq, hba, hab, hb⟩ := step_a hs
    have hh := halves_step h.ab h.ba cfg.valid hq hba
    rw [← hab, ← hb] at hh
    exact ⟨hh.1, hh.2⟩
  | b e =>
    obtain ⟨w, hq, hab, hba, ha⟩ := step_b hs
    have hh := halves_step h.ba h.ab cfg.valid.symm hq hab
    rw [← hba, ← ha] at hh
    exact ⟨hh.2, hh.1⟩

/-- The initiate engine forgets no stream. -/
theorem length_step {e : PairEvent} (h : s.Base cfg) (hs : s.step cfg e = some s') :
    s.a.tasks.length ≤ s'.a.tasks.length := by
  cases e with
  | a e =>
    obtain ⟨w, hq, -, -, -⟩ := step_a hs
    exact Engine.length_step h.ab.tables hq
  | b e =>
    obtain ⟨w, -, -, -, ha⟩ := step_b hs
    rw [ha]

end Pair

end CtAgent.Forward
