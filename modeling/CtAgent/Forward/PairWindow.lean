import CtAgent.Forward.Pair
import CtAgent.Forward.Queues

/-! The session window between two engines: every byte of stream data a sender queued is on its way,
is waiting for its acknowledgement, or is acknowledged and the acknowledgement is on its way back. -/
namespace CtAgent.Forward
open CtAgent.Lib

/-- Stream data between its queue and the end of its acknowledgement. -/
def flight (snd rcv : Engine) (wire back : List Frame) : ℕ :=
  tally Frame.streamLen (snd.ctrl ++ snd.out) + tally Frame.streamLen wire + rcv.settled +
    tally Frame.acks back

/-- The receiver knows that its peer counts, or the HELLO that says so is in front of everything. -/
def HelloFirst (cfg : EngineConfig) (snd rcv : Engine) (wire : List Frame) : Prop :=
  rcv.recv.on = true ∨ (∃ rest, wire = helloFrame (UInt32.ofNat cfg.window) :: rest) ∨
    (wire = [] ∧ snd.ctrlEmpty = false ∧ ∃ rest, snd.ctrl = helloFrame (UInt32.ofNat cfg.window) :: rest)

section
variable {cfg peer : EngineConfig} {grant : ℕ} {snd snd' rcv rcv' : Engine}
  {wire wire' back back' w : List Frame}
  {e : EngineEvent}

/-- Nothing the writer does puts a frame in front of the HELLO. -/
theorem HelloFirst.sends (h : HelloFirst cfg snd rcv wire) (hq : Engine.QueueStep cfg snd snd' w) :
    HelloFirst cfg snd' rcv (wire ++ w) := by
  rcases h with hon | ⟨rest, rfl⟩ | ⟨rfl, hempty, rest, hctrl⟩
  · exact .inl hon
  · exact .inr (.inl ⟨rest ++ w, rfl⟩)
  · right
    cases hq with
    | ctrlNone hc hs =>
      rw [hctrl] at hc
      cases hc
    | ctrlSome f ctrl hc hs =>
      rw [hctrl] at hc
      cases hc
      exact .inl ⟨[], rfl⟩
    | outNone ho hs =>
      subst hs
      exact .inr ⟨rfl, rfl, rest, hctrl⟩
    | outSome f out hc ho hs =>
      rw [hempty] at hc
      cases hc
    | adds cs os ha hc ho he =>
      refine .inr ⟨rfl, he.trans hempty, rest ++ cs, ?_⟩
      rw [hc, hctrl, List.cons_append]

theorem helloFrame_eq (window : UInt32) :
    helloFrame window = .data controlId (helloFrame window).payload := rfl

theorem flush_on (r : SessionRecv) : r.flush.2.on = r.on := rfl

theorem received_on (n : ℕ) (r : SessionRecv) : (r.received n).2.on = r.on := by
  unfold SessionRecv.received
  split
  · rfl
  · dsimp only
    split <;> rfl

/-- Once it counts, a receiver counts to the end. -/
theorem recv_on (hs : Engine.Shape peer rcv e rcv' w) (hend : rcv'.ended = none)
    (hfrom : ∀ f ∈ e.input, f.From cfg) (hon : rcv.recv.on = true) : rcv'.recv.on = true := by
  rcases Engine.recv_step hs with hr | hr | ⟨id, payload, -, -, hr⟩ | ⟨payload, window, rfl, -, hp, hr, -⟩
  · rw [hr, hon]
  · rw [hr, flush_on, hon]
  · rw [hr, received_on, hon]
  · have hf := hfrom (.data controlId payload) (List.mem_singleton_self _) rfl
    rw [hp] at hf
    rw [hr hend, hf.2]
    rfl

/-- The HELLO makes a receiver count. -/
theorem hello_on {window : UInt32} (hs : Engine.Shape peer rcv (.frame (helloFrame window)) rcv' w)
    (hfc : peer.fcEnabled = true) (hend : rcv'.ended = none) : rcv'.recv.on = true := by
  have hparse := parseControl_hello window
  rw [helloFrame_eq] at hs
  generalize (helloFrame window).payload = payload at hs hparse
  generalize he : EngineEvent.frame (.data controlId payload) = e at hs
  cases hs with
  | touched e s' hne ht => exact absurd he.symm (hne _)
  | flags e accepting helloDeadline stopping hne => exact absurd he.symm (hne _)
  | gone e why hne => exact absurd he.symm (hne _)
  | ignored f s' hf ht hc =>
    cases he
    rcases hc hfc with hc | ⟨id, bytes, hc⟩ <;> simp [Frame.payload, hparse] at hc
  | hello payload' window' s' hfc' hp hh =>
    cases he
    rw [hparse] at hp
    cases hp
    cases hh with
    | late => rfl
    | granted => rfl
    | below => cases hend
  | swindow payload' bytes hfc' hp =>
    cases he
    rw [hparse] at hp
    cases hp
  | flood payload' id hfc' hp =>
    cases he
    rw [hparse] at hp
    cases hp
  | fcOn payload' id hfc' hp =>
    cases he
    rw [hparse] at hp
    cases hp
  | data id payload' s' hid => 
    cases he
    exact absurd rfl hid
  | _ => cases he

theorem input_cases (e : EngineEvent) : e.input = [] ∨ ∃ f, e = .frame f ∧ e.input = [f] := by
  cases e with
  | frame f => exact .inr ⟨f, rfl, rfl⟩
  | _ => exact .inl rfl

theorem HelloFirst.receives (h : HelloFirst cfg snd rcv wire) (hs : Engine.Shape peer rcv e rcv' w)
    (hfc : peer.fcEnabled = true) (hw : wire = e.input ++ wire') (hend : rcv'.ended = none)
    (hfrom : ∀ f ∈ wire, f.From cfg) : HelloFirst cfg snd rcv' wire' := by
  rcases h with hon | ⟨rest, hrest⟩ | ⟨hnil, hempty, hctrl⟩
  · refine .inl (recv_on hs hend (fun f hf => hfrom f ?_) hon)
    rw [hw]
    exact List.mem_append_left _ hf
  · rcases input_cases e with he | ⟨f, rfl, he⟩
    · rw [he, List.nil_append] at hw
      exact .inr (.inl ⟨rest, by rw [← hw, hrest]⟩)
    · rw [he, hrest] at hw
      cases hw
      exact .inl (hello_on hs hfc hend)
  · rw [hnil] at hw
    obtain ⟨-, hw'⟩ := List.append_eq_nil_iff.mp hw.symm
    exact .inr (.inr ⟨hw', hempty, hctrl⟩)

/-- Before a receiver counts it reads no stream data. -/
theorem HelloFirst.input (h : HelloFirst cfg snd rcv wire) (hw : wire = e.input ++ wire') :
    rcv.recv.on = true ∨ tally Frame.streamLen e.input = 0 := by
  rcases h with hon | ⟨rest, hrest⟩ | ⟨hnil, -, -⟩
  · exact .inl hon
  · right
    rcases input_cases e with he | ⟨f, -, he⟩
    · rw [he]
      rfl
    · rw [he, hrest] at hw
      cases hw
      rw [he]
      simp [helloFrame, Frame.streamLen]
  · right
    rw [hnil] at hw
    rw [(List.append_eq_nil_iff.mp hw.symm).1]
    rfl

/-- The window of a sender against everything on its way to the receiver and back. -/
structure Acked (snd rcv : Engine) (wire back : List Frame) : Prop where
  idle : snd.tasks = [] → flight snd rcv wire back = 0
  bound : ∀ win, snd.session = some win → flight snd rcv wire back ≤ win.send.unacknowledged
  whole : rcv.ended = none → ∀ win, snd.session = some win →
    flight snd rcv wire back = win.send.unacknowledged

/-- Acknowledgements on their way fit what is not acknowledged. -/
theorem Acked.input_le (h : Acked snd rcv wire back) (hb : back = e.input ++ back') :
    ∀ win, snd.session = some win → tally Frame.acks e.input ≤ win.send.unacknowledged := by
  intro win hw
  have hle := h.bound win hw
  simp only [flight, hb, tally_append] at hle
  omega

theorem Acked.sends (h : Acked snd rcv wire back) (hwin : snd.Windowed cfg grant) (htab : snd.Tables cfg)
    (hs : Engine.Shape cfg snd e snd' w) (hb : back = e.input ++ back') :
    Acked snd' rcv (wire ++ w) back' := by
  have hack := h.input_le hb
  constructor
  · intro hn
    obtain ⟨hn', hsent⟩ := Engine.sent_none hs hn
    have hidle := h.idle hn'
    simp only [flight, hb, tally_append] at hidle hsent ⊢
    omega
  · intro win' hw'
    rcases Engine.sent_step hwin htab hs hw' hack with ⟨win, hw, hsent⟩ | ⟨hn, hu, hc, ho, -, rfl⟩
    · have hbd := h.bound win hw
      simp only [flight, hb, tally_append] at hbd hsent ⊢
      omega
    · have hidle := h.idle hn
      simp only [flight, hb, hc, ho, tally_append, tally_nil] at hidle ⊢
      omega
  · intro hend win' hw'
    rcases Engine.sent_step hwin htab hs hw' hack with ⟨win, hw, hsent⟩ | ⟨hn, hu, hc, ho, -, rfl⟩
    · have hbd := h.whole hend win hw
      simp only [flight, hb, tally_append] at hbd hsent ⊢
      omega
    · have hidle := h.idle hn
      simp only [flight, hb, hc, ho, tally_append, tally_nil] at hidle ⊢
      omega

theorem Acked.receives (h : Acked snd rcv wire back) (htab : rcv.Tables peer) (hend : rcv.ended = none)
    (hs : Engine.Shape peer rcv e rcv' w) (hw : wire = e.input ++ wire')
    (hfirst : snd.session.isSome = true → HelloFirst cfg snd rcv wire)
    (hcap : ∀ win, snd.session = some win → win.send.unacknowledged < 2 ^ 32) :
    Acked snd rcv' wire' (back ++ w) := by
  have hr := Engine.received_step htab hend hs
  constructor
  · intro hn
    have hidle := h.idle hn
    simp only [flight, hw, tally_append] at hidle ⊢
    omega
  · intro win hwin
    have hbd := h.bound win hwin
    simp only [flight, hw, tally_append] at hbd ⊢
    omega
  · intro hend' win hwin
    have hwhole := h.whole hend win hwin
    have hlt := hcap win hwin
    have hon := (hfirst (by rw [hwin]; rfl)).input hw
    have hle : rcv.recv.unacked ≤ rcv.settled := Nat.le_add_right _ _
    simp only [flight, hw, tally_append] at hwhole ⊢
    have hex := hr.2 hend' hon (by omega)
    omega

end

end CtAgent.Forward
