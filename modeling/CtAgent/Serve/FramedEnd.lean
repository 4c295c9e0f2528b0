import CtAgent.Serve.FramedDown

/-! The end of the framed relay: both FINs with the writer, the shutdown, and what is left to do before. -/
namespace CtAgent.Serve.Framed

open CtAgent.Lib KeepaliveTracker

section
variable {κ : Type}

/-- The peer's FIN on its way from the half that reads it to the writer. -/
structure FinPath (s : Relay κ) : Prop where
  recorded : s.peerFin = true ∨ .peerFin ∈ s.work → s.Ended
  owed : s.Ended → s.peerFin = true ∨ .peerFin ∈ s.work ∨
    ∃ last, s.up = .halfClosing last ∨ s.up = .sending .peerFin last

theorem FinPath.congr {s t : Relay κ} (h : FinPath s) (hread : t.read = s.read) (hup : t.up = s.up)
    (hwork : t.work = s.work) (hfin : t.peerFin = s.peerFin) : FinPath t := by
  have hended : t.Ended ↔ s.Ended := by rw [Relay.Ended, hread, ← Relay.Ended]
  constructor
  · rw [hfin, hwork, hended]
    exact h.recorded
  · rw [hended, hfin, hwork, hup]
    exact h.owed

/-- A unit of work at the queue's end. -/
theorem mem_work_push {s t : Relay κ} {ev : EdgeWrite} (hw : t.writer = s.writer)
    (hq : t.queue = s.queue ++ [ev]) (x : EdgeWrite) : x ∈ t.work ↔ x ∈ s.work ∨ x = ev := by
  simp [Relay.work, hw, hq, or_assoc]

/-- Once the half is not about to announce the end, the FIN is with the writer. -/
theorem FinPath.handedOver {s : Relay κ} (h : FinPath s) (hclose : ∀ last, s.up ≠ .halfClosing last)
    (hsend : ∀ last, s.up ≠ .sending .peerFin last) (he : s.Ended) :
    s.peerFin = true ∨ .peerFin ∈ s.work := by
  rcases h.owed he with hp | hp | ⟨last, hl | hl⟩
  · exact .inl hp
  · exact .inr hp
  · exact absurd hl (hclose last)
  · exact absurd hl (hsend last)

/-- The half hands a unit of work over and is behind it. -/
theorem FinPath.hands {s t : Relay κ} (h : FinPath s) (hu : UpInv s) {ev : EdgeWrite} {last : Bool}
    (hup : s.up = .sending ev last) (hread : t.read = s.read) (hw : t.writer = s.writer)
    (hq : t.queue = s.queue ++ [ev]) (hfin : t.peerFin = s.peerFin) : FinPath t := by
  have hmem := mem_work_push hw hq
  have hended : t.Ended ↔ s.Ended := by rw [Relay.Ended, hread, ← Relay.Ended]
  constructor
  · rw [hfin, hended]
    rintro (hp | hp)
    · exact h.recorded (.inl hp)
    · rcases (hmem _).mp hp with hp | rfl
      · exact h.recorded (.inr hp)
      · exact hu.closing last (.inr hup)
  · rw [hfin, hended]
    intro he
    by_cases hev : ev = .peerFin
    · exact .inr (.inl ((hmem _).mpr (.inr hev.symm)))
    · rcases h.handedOver (by simp [hup]) (by simp [hup, hev]) he with hp | hp
      · exact .inl hp
      · exact .inr (.inl ((hmem _).mpr (.inl hp)))

theorem FinPath.stepUp {s t : Relay κ} {e : Event} (h : FinPath s) (hu : UpInv s) (hs : UpStep s e t) :
    FinPath t := by
  cases hs with
  | fails e text hup => exact h.congr rfl rfl rfl rfl
  | reads f rest hup hst =>
    -- the end is announced at once
    have hnew : f = some .fin ∨ f = none → ∃ last,
        (Relay.handle { s with read := s.read ++ [f], stream := rest } f).up = .halfClosing last ∨
        (Relay.handle { s with read := s.read ++ [f], stream := rest } f).up = .sending .peerFin last := by
      rintro (rfl | rfl)
      · refine ⟨false, ?_⟩
        by_cases hw : s.originW = true
        · exact .inl (by simp [Relay.handle, Relay.peerEnds, hw])
        · exact .inr (by simp [Relay.handle, Relay.peerEnds, hw])
      · refine ⟨true, ?_⟩
        by_cases hw : s.originW = true
        · exact .inl (by simp [Relay.handle, Relay.peerEnds, hw])
        · exact .inr (by simp [Relay.handle, Relay.peerEnds, hw])
    rw [Relay.handle_eq]
    constructor
    · intro hrec
      rcases h.recorded hrec with he | he
      · exact .inl (List.mem_append_left _ he)
      · exact .inr (List.mem_append_left _ he)
    · intro he
      by_cases hold : s.Ended
      · rcases h.handedOver (by simp [hup]) (by simp [hup]) hold with hp | hp
        · exact .inl hp
        · exact .inr (.inl hp)
      · rw [Relay.Ended, not_or] at hold
        refine .inr (.inr (hnew ?_))
        rcases he with he | he
        · rcases List.mem_append.mp he with he | he
          · exact absurd he hold.1
          · exact .inl (List.mem_singleton.mp he).symm
        · rcases List.mem_append.mp he with he | he
          · exact absurd he hold.2
          · exact .inr (List.mem_singleton.mp he).symm
  | dials d hup hd =>
    refine ⟨h.recorded, fun he => ?_⟩
    rcases h.handedOver (by simp [hup]) (by simp [hup]) he with hp | hp
    · exact .inl hp
    · exact .inr (.inl hp)
  | takes n rest hup hn hle =>
    refine ⟨h.recorded, fun he => ?_⟩
    rcases h.handedOver (by simp [hup]) (by simp [hup]) he with hp | hp
    · exact .inl hp
    · exact .inr (.inl hp)
  | halfCloses last hup => exact ⟨h.recorded, fun _ => .inr (.inr ⟨last, .inr rfl⟩)⟩
  | sends ev hup hq => exact h.hands hu hup rfl rfl rfl rfl
  | sendsLast ev hup hq => exact h.hands hu hup rfl rfl rfl rfl

theorem FinPath.stepDown {s t : Relay κ} {e : Event} (h : FinPath s) (hd : DownInv s) (hs : DownStep s e t) :
    FinPath t := by
  cases hs with
  | sends ev hdown hq =>
    have hmem := mem_work_push (s := s) (t := { s with queue := s.queue ++ [ev], down := .after ev }) rfl rfl
    have hne : ev ≠ .peerFin := by
      rcases hd.hands ev hdown with rfl | ⟨d, rfl⟩
      · simp
      · simp
    constructor
    · rintro (hp | hp)
      · exact h.recorded (.inl hp)
      · rcases (hmem _).mp hp with hp | hp
        · exact h.recorded (.inr hp)
        · exact absurd hp.symm hne
    · intro he
      rcases h.owed he with hp | hp | hl
      · exact .inl hp
      · exact .inr (.inl ((hmem _).mpr (.inl hp)))
      · exact .inr (.inr hl)
  | _ => exact h.congr rfl rfl rfl rfl

section
variable [KeepaliveTracker κ]

theorem Relay.apply_peerFin (s : Relay κ) (ev : EdgeWrite) :
    (s.apply ev).peerFin = true ↔ s.peerFin = true ∨ ev = .peerFin := by
  cases ev <;> simp [Relay.apply]

theorem FinPath.stepWriter {idleBound : ℕ} {s t : Relay κ} {e : Event} (h : FinPath s)
    (hs : WriterStep idleBound s e t) : FinPath t := by
  have hsame := hs.sameHalves
  rcases hs.work with ⟨ev, drain, w, hw, hin, rfl⟩ | ⟨hwork, hfin⟩
  · have hqueue : (s.apply ev).queue = s.queue := by cases ev <;> rfl
    have hold : s.work = ev :: s.queue := by rw [Relay.work, hw]; rfl
    have hnew : Relay.work { s.apply ev with writer := w } = s.queue := by
      simp only [Relay.work, hin, hqueue, List.nil_append]
    have hread : (s.apply ev).read = s.read := hsame.read
    have hended : Relay.Ended { s.apply ev with writer := w } ↔ s.Ended := by
      simp only [Relay.Ended, hread]
    constructor
    · rintro (hp | hp)
      · rw [hended]
        rcases (s.apply_peerFin ev).mp hp with hp | rfl
        · exact h.recorded (.inl hp)
        · exact h.recorded (.inr (hold ▸ List.mem_cons_self ..))
      · rw [hended]
        rw [hnew] at hp
        exact h.recorded (.inr (hold ▸ List.mem_cons_of_mem _ hp))
    · intro he
      rw [hended] at he
      rcases h.owed he with hp | hp | ⟨last, hl⟩
      · exact .inl ((s.apply_peerFin ev).mpr (.inl hp))
      · rw [hold] at hp
        rcases List.mem_cons.mp hp with hp | hp
        · exact .inl ((s.apply_peerFin ev).mpr (.inr hp.symm))
        · exact .inr (.inl (hnew.symm ▸ hp))
      · have hup : (s.apply ev).up = s.up := hsame.up
        exact .inr (.inr ⟨last, by rw [hup]; exact hl⟩)
  · exact h.congr hsame.read hsame.up hwork hfin

/-- The phases of the writer and its two FINs. -/
structure WriterInv (s : Relay κ) : Prop where
  idle : s.finCause = some .idleBound → s.writer = .closing
  finning : s.writer = .finning → s.finSent = false ∧ s.peerFin = true
  running : (∃ deadline, s.writer = .selecting deadline) ∨ s.writer = .keepaliving →
    ¬ (s.finSent = true ∧ s.peerFin = true)
  closing : s.writer = .closing → s.finSent = true ∧ s.peerFin = true
  untracked : s.peerFin = true → outstanding s.tracker = []
  ok : s.returned = some (.ok ()) → s.writer = .closing

/-- A new phase over the same FINs. -/
theorem WriterInv.phase {s : Relay κ} (h : WriterInv s) {w : Writer} (hw : s.writer ≠ .closing)
    (hfinning : w = .finning → s.finSent = false ∧ s.peerFin = true)
    (hrunning : (∃ deadline, w = .selecting deadline) ∨ w = .keepaliving →
      ¬ (s.finSent = true ∧ s.peerFin = true))
    (hclosing : w = .closing → s.finSent = true ∧ s.peerFin = true) : WriterInv { s with writer := w } where
  idle hi := absurd (h.idle hi) hw
  finning := hfinning
  running := hrunning
  closing := hclosing
  untracked := h.untracked
  ok ho := absurd (h.ok ho) hw

/-- The top of the loop, reached with a state that may have got its FIN just now. -/
theorem WriterInv.loopTop {s : Relay κ} (hidle : s.finCause = some .idleBound → s.peerFin = true ∧
    s.finSent = true)
    (huntracked : s.peerFin = true → outstanding s.tracker = [])
    (hok : s.returned ≠ some (.ok ())) : WriterInv s.loopTop := by
  obtain ⟨w, hlt, ⟨rfl, hf, hp⟩ | ⟨⟨deadline, rfl⟩, hboth⟩⟩ := s.loopTop_eq
  · rw [hlt]
    exact ⟨fun _ => rfl, fun hw => (by cases hw), by simp, fun _ => ⟨hf, hp⟩, huntracked,
      fun ho => absurd ho hok⟩
  · rw [hlt]
    exact ⟨fun hi => absurd ⟨(hidle hi).2, (hidle hi).1⟩ hboth, fun hw => (by cases hw), fun _ => hboth,
      fun hw => (by cases hw), huntracked, fun ho => absurd ho hok⟩

theorem WriterInv.untracked_apply {s : Relay κ} (h : WriterInv s) (ev : EdgeWrite)
    (hp : (s.apply ev).peerFin = true) : outstanding (s.apply ev).tracker = [] := by
  cases ev with
  | peerFin => exact outstanding_new
  | ackReceived c =>
    have hempty := h.untracked hp
    apply List.eq_nil_iff_forall_not_mem.mpr
    intro x hx
    have hx' := (outstanding_ack _ _ x hx).1
    rw [hempty] at hx'
    cases hx'
  | _ => exact h.untracked hp

theorem WriterInv.stepWriter {idleBound : ℕ} {s t : Relay κ} {e : Event} (h : WriterInv s) (hu : UpInv s)
    (hd : DownInv s) (hp : FinPath s) (hr : s.returned = none) (hs : WriterStep idleBound s e t) :
    WriterInv t := by
  have hok : s.returned ≠ some (.ok ()) := by simp [hr]
  -- while a unit of work is applied the idle bound has sent no FIN
  have hcause {ev : EdgeWrite} {drain : Bool} (hw : s.writer = .applying ev drain) :
      (s.apply ev).finCause ≠ some .idleBound := by
    intro hi
    have hi' : s.finCause = some .idleBound := by
      cases ev with
      | fin => cases hi
      | _ => exact hi
    cases hw.symm.trans (h.idle hi')
  have hret (ev : EdgeWrite) : (s.apply ev).returned ≠ some (.ok ()) := by
    cases ev <;> exact hok
  cases hs with
  | receives deadline ev rest hw hq =>
    exact ⟨fun hi => (by cases hw.symm.trans (h.idle hi)), by simp, by simp, by simp, h.untracked,
      fun ho => absurd ho hok⟩
  | drains ev rest hw hq =>
    exact ⟨fun hi => (by cases hw.symm.trans (h.idle hi)), by simp, by simp, by simp, h.untracked,
      fun ho => absurd ho hok⟩
  | findsClosed deadline hw hq hup hdown =>
    -- both halves are done, so that both FINs have come through the empty queue
    have hwork : s.work = [] := by simp [Relay.work, hw, hq, Writer.inHand]
    have hfin : s.finSent = true := by
      rcases hd.finished (.inl hdown) with ⟨pre, hpre, -⟩ | ⟨-, hcause⟩
      · simp [Relay.downWork, hwork, hdown, Down.inHand] at hpre
      · exact hd.cause.mpr (by simp [hcause])
    have hpeer : s.peerFin = true := by
      rcases hp.handedOver (by simp [hup]) (by simp [hup]) (hu.finished hup) with hp | hp
      · exact hp
      · simp [hwork] at hp
    exact h.phase (by simp [hw]) (by simp) (by simp) (fun _ => ⟨hfin, hpeer⟩)
  | keepaliveDue deadline hw ht =>
    have hboth := h.running (.inl ⟨deadline, hw⟩)
    exact ⟨fun hi => (by cases hw.symm.trans (h.idle hi)), by simp, fun _ => hboth, by simp, h.untracked,
      fun ho => absurd ho hok⟩
  | idleDue deadline hw hpf hf ht =>
    exact h.phase (by simp [hw]) (fun _ => ⟨hf, hpf⟩) (by simp) (by simp)
  | deadlineDue d hw ht => exact h.phase (by simp [hw]) (by simp) (by simp) (by simp)
  | applies ev hw =>
    exact WriterInv.loopTop (fun hi => absurd hi (hcause hw)) (h.untracked_apply ev) (hret ev)
  | drained ev hw =>
    exact ⟨fun hi => absurd hi (hcause hw), by simp, by simp, by simp, h.untracked_apply ev,
      fun ho => absurd ho (hret ev)⟩
  | keepsAlive hw =>
    refine WriterInv.loopTop (fun hi => by cases hw.symm.trans (h.idle hi)) (fun hpf => ?_) hok
    have hpf' : s.peerFin = true := hpf
    simp only [Relay.keptAlive, hpf', if_true]
    exact h.untracked hpf'
  | fins hw =>
    obtain ⟨-, hpf⟩ := h.finning hw
    exact WriterInv.loopTop (fun _ => ⟨hpf, rfl⟩) h.untracked hok
  | judges hw hq =>
    rcases s.judge_cases with hj | ⟨age, hj, -⟩
    · rw [hj]
      exact WriterInv.loopTop (fun hi => by cases hw.symm.trans (h.idle hi)) h.untracked hok
    · rw [hj]
      exact ⟨h.idle, h.finning, h.running, h.closing, h.untracked, by simp⟩
  | fails text => exact ⟨h.idle, h.finning, h.running, h.closing, h.untracked, by simp [Relay.fail]⟩
  | shutsDown hw => exact ⟨h.idle, h.finning, h.running, h.closing, h.untracked, fun _ => hw⟩
  | shutdownFails text hw =>
    exact ⟨h.idle, h.finning, h.running, h.closing, h.untracked, by simp [Relay.fail]⟩

theorem DownInv.stepWriter {idleBound : ℕ} {s t : Relay κ} {e : Event} (h : DownInv s) (hw : WriterInv s)
    (hs : WriterStep idleBound s e t) : DownInv t := by
  have hidle {ev : EdgeWrite} {drain : Bool} (hp : s.writer = .applying ev drain) :
      s.finCause ≠ some .idleBound := fun hi => by cases hp.symm.trans (hw.idle hi)
  have hsame := hs.sameHalves
  have hwork := hs.work
  cases hs with
  | applies ev hp =>
    obtain ⟨w, hlt, hin, -⟩ := (s.apply ev).loopTop_phase
    rw [hlt]
    exact h.apply (Relay.applied hp hin) (hidle hp)
  | drained ev hp => exact h.apply (Relay.applied hp rfl) (hidle hp)
  | keepsAlive hp =>
    rcases hwork with ⟨ev, drain, w, hp', -⟩ | ⟨hwork, -⟩
    · cases hp.symm.trans hp'
    · obtain ⟨w, hlt, -, -⟩ := s.keptAlive.loopTop_phase
      rw [hlt] at hwork hsame ⊢
      exact h.wireOther [.keepalive s.counter] (by simp) hsame.down hsame.fromOrigin
        (by rw [Relay.downWork, hwork, hsame.down, ← Relay.downWork]) rfl rfl rfl
  | fins hp =>
    rcases hwork with ⟨ev, drain, w, hp', -⟩ | ⟨hwork, -⟩
    · cases hp.symm.trans hp'
    · obtain ⟨w, hlt, -, -⟩ := s.idleFinned.loopTop_phase
      rw [hlt] at hwork hsame ⊢
      exact h.idleFin (hw.finning hp).1 hsame.down hsame.fromOrigin
        (by rw [Relay.downWork, hwork, hsame.down, ← Relay.downWork]) rfl rfl rfl
  | judges hp hq =>
    rcases hwork with ⟨ev, drain, w, hp', -⟩ | ⟨hwork, -⟩
    · cases hp.symm.trans hp'
    · have hdown : s.judge.downWork = s.downWork := by
        rw [Relay.downWork, hwork, hsame.down, ← Relay.downWork]
      rcases s.judge_cases with hj | ⟨age, hj, -⟩
      · obtain ⟨w, hlt, -, -⟩ := s.loopTop_phase
        rw [hj, hlt] at hdown ⊢
        exact h.congr rfl rfl hdown rfl rfl rfl
      · rw [hj] at hdown ⊢
        exact h.congr rfl rfl hdown rfl rfl rfl
  | receives deadline ev rest hp hq =>
    exact h.congr rfl rfl (by simp [Relay.downWork, Relay.work, hp, hq, Writer.inHand]) rfl rfl rfl
  | drains ev rest hp hq =>
    exact h.congr rfl rfl (by simp [Relay.downWork, Relay.work, hp, hq, Writer.inHand]) rfl rfl rfl
  | findsClosed deadline hp hq hup hdown =>
    exact h.congr rfl rfl (by simp [Relay.downWork, Relay.work, hp, Writer.inHand]) rfl rfl rfl
  | keepaliveDue deadline hp ht =>
    exact h.congr rfl rfl (by simp [Relay.downWork, Relay.work, hp, Writer.inHand]) rfl rfl rfl
  | idleDue deadline hp hpf hf ht =>
    exact h.congr rfl rfl (by simp [Relay.downWork, Relay.work, hp, Writer.inHand]) rfl rfl rfl
  | deadlineDue d hp ht =>
    exact h.congr rfl rfl (by simp [Relay.downWork, Relay.work, hp, Writer.inHand]) rfl rfl rfl
  | fails text => exact h.congr rfl rfl rfl rfl rfl rfl
  | shutsDown hp => exact h.congr rfl rfl rfl rfl rfl rfl
  | shutdownFails text hp => exact h.congr rfl rfl rfl rfl rfl rfl

/-- The half from the Origin reads what has been handed over to it. -/
def Relay.Handed (s : Relay κ) : Prop :=
  s.down = .reading ∨ (∃ d, s.down = .sending (.data d)) → s.dial = .sent

theorem Relay.Handed.step {idleBound : ℕ} {s t : Relay κ} {e : Event} (h : s.Handed) (hdown : DownInv s)
    (hs : s.step idleBound e = some t) : t.Handed := by
  obtain ⟨-, ⟨ms, rfl, rfl⟩ | ⟨f, rfl, -, rfl⟩ | hs | hs | hs⟩ := Relay.step_cases hs
  · exact h
  · exact h
  · -- the dial channel is used or dropped, and what was sent stays sent
    have hdown : t.down = s.down := by
      cases hs with
      | reads f rest hu hst => rw [Relay.handle_eq]
      | _ => rfl
    have hdial : s.dial = .sent → t.dial = .sent := by
      intro hd
      cases hs with
      | reads f rest hu hst =>
        unfold Relay.handle
        split
        · split_ifs
          · exact hd
          · exact hd
          · exact hd
        · split_ifs
          · exact hd
          · exact hd
        · exact hd
        · simp [Relay.peerEnds, hd, Dial.drop]
        · simp [Relay.peerEnds, hd]
      | dials d hu hp => rfl
      | sendsLast ev hu hq => simp [hd, Dial.drop]
      | _ => exact hd
    intro hr
    rw [hdown] at hr
    exact hdial (h hr)
  · cases hs with
    | dialed hd ho => exact fun _ => ho
    | gives bytes hd hne hle => exact fun _ => h (.inl hd)
    | sends ev hd hq =>
      rcases hdown.hands ev hd with rfl | ⟨d, rfl⟩
      · rintro (hr | ⟨d, hr⟩) <;> cases hr
      · exact fun _ => h (.inr ⟨d, hd⟩)
    | fails text hd => exact h
    | _ => rintro (hr | ⟨d, hr⟩) <;> cases hr
  · have hsame := hs.sameHalves
    rw [Relay.Handed, hsame.down, hsame.dial]
    exact h

/-- The invariant of the relay. -/
structure FramedInv (s : Relay κ) : Prop where
  up : UpInv s
  down : DownInv s
  path : FinPath s
  writer : WriterInv s
  handed : s.Handed

theorem FramedInv.start : FramedInv (Relay.start : Relay κ) where
  up := UpInv.start
  down := DownInv.start
  path :=
    { recorded := by simp [Relay.start, Relay.work, Writer.inHand]
      owed := by simp [Relay.start, Relay.Ended] }
  writer :=
    { idle := by simp [Relay.start]
      finning := by simp [Relay.start]
      running := by simp [Relay.start]
      closing := by simp [Relay.start]
      untracked := by simp [Relay.start]
      ok := by simp [Relay.start] }
  handed := by simp [Relay.start, Relay.Handed]

/-- The phases do not depend on the two halves. -/
theorem WriterInv.halves {s t : Relay κ} (h : WriterInv s) (hs : SameWriter s t)
    (hret : t.returned ≠ some (.ok ())) : WriterInv t := by
  refine ⟨?_, ?_, ?_, ?_, ?_, fun ho => absurd ho hret⟩
  · rw [hs.finCause, hs.writer]
    exact h.idle
  · rw [hs.writer, hs.finSent, hs.peerFin]
    exact h.finning
  · rw [hs.writer, hs.finSent, hs.peerFin]
    exact h.running
  · rw [hs.writer, hs.finSent, hs.peerFin]
    exact h.closing
  · rw [hs.peerFin, hs.tracker]
    exact h.untracked

theorem FramedInv.step {idleBound : ℕ} {s t : Relay κ} {e : Event} (h : FramedInv s)
    (hs : s.step idleBound e = some t) : FramedInv t := by
  have hup : UpInv t := h.up.step hs
  have hhanded : t.Handed := h.handed.step h.down hs
  obtain ⟨hr, ⟨ms, rfl, rfl⟩ | ⟨f, rfl, -, rfl⟩ | hs | hs | hs⟩ := Relay.step_cases hs
  · exact ⟨hup, h.down.congr rfl rfl rfl rfl rfl rfl, h.path.congr rfl rfl rfl rfl,
      h.writer.halves ⟨rfl, rfl, rfl, rfl, rfl, rfl⟩ (by simp [hr]), hhanded⟩
  · exact ⟨hup, h.down.congr rfl rfl rfl rfl rfl rfl, h.path.congr rfl rfl rfl rfl,
      h.writer.halves ⟨rfl, rfl, rfl, rfl, rfl, rfl⟩ (by simp [hr]), hhanded⟩
  · refine ⟨hup, h.down.stepUp h.up hs, h.path.stepUp h.up hs, ?_, hhanded⟩
    have hret : t.returned ≠ some (.ok ()) := by
      rcases hs.returned with hret | ⟨-, text, hret⟩
      · simp [hret, hr]
      · simp [hret]
    exact h.writer.halves hs.sameWriter hret
  · refine ⟨hup, h.down.stepDown hs, h.path.stepDown h.down hs, ?_, hhanded⟩
    have hret : t.returned ≠ some (.ok ()) := by
      rcases hs.returned with hret | ⟨text, -, hret⟩
      · simp [hret, hr]
      · simp [hret]
    exact h.writer.halves hs.sameWriter hret
  · exact ⟨hup, h.down.stepWriter h.writer hs, h.path.stepWriter hs,
      h.writer.stepWriter h.up h.down h.path hr hs, hhanded⟩

theorem FramedInv.run {idleBound : ℕ} {es : List Event} {s : Relay κ}
    (h : run (Relay.step idleBound) Relay.start es = some s) : FramedInv s :=
  run_invariant (Relay.step idleBound) FramedInv (fun _ _ _ hi hs => hi.step hs) es Relay.start s
    FramedInv.start h

end

end

end CtAgent.Serve.Framed
