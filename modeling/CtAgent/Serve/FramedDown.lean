import CtAgent.Serve.FramedUp

/-! From the Origin to the edge on the framed relay: what the writer puts on the wire, in which order, and
how the two FINs get there. -/
namespace CtAgent.Serve.Framed

open CtAgent.Lib KeepaliveTracker

/-- The bytes of the DATA frames on the wire. -/
def wireData (wire : List WireFrame) : Bytes :=
  wire.flatMap (fun f => match f with
    | .data payload => payload
    | _ => [])

def workData (work : List EdgeWrite) : Bytes :=
  work.flatMap (fun ev => match ev with
    | .data payload => payload
    | _ => [])

def Down.inHand : Down → List EdgeWrite
  | .sending ev => [ev]
  | _ => []

/-- The units of work of the half from the Origin. -/
def EdgeWrite.ofDown : EdgeWrite → Bool
  | .data _ => true
  | .fin => true
  | _ => false

theorem wireData_append (wire wire' : List WireFrame) :
    wireData (wire ++ wire') = wireData wire ++ wireData wire' := List.flatMap_append

theorem workData_append (work work' : List EdgeWrite) :
    workData (work ++ work') = workData work ++ workData work' := List.flatMap_append

section
variable {κ : Type}

/-- What is on its way from the Origin to the wire. -/
def Relay.downWork (s : Relay κ) : List EdgeWrite := (s.work ++ s.down.inHand).filter EdgeWrite.ofDown

structure DownInv (s : Relay κ) : Prop where
  relayed : wireData s.wire ++ workData s.downWork = s.fromOrigin
  hands : ∀ ev, s.down = .sending ev → ev = .fin ∨ ∃ d, ev = .data d
  running : s.down ≠ .done → s.down ≠ .sending .fin → .fin ∉ s.downWork ∧ s.finCause ≠ some .queued
  finished : s.down = .done ∨ s.down = .sending .fin →
    (∃ pre, s.downWork = pre ++ [.fin] ∧ .fin ∉ pre ∧ s.finCause ≠ some .queued) ∨
      (s.downWork = [] ∧ s.finCause = some .queued)
  fins : .fin ∈ s.wire ↔ s.finSent = true
  cause : s.finSent = true ↔ s.finCause ≠ none
  last : EachAfter (fun before f => .fin ∈ before → f ≠ .fin ∧ ∀ d, f ≠ .data d) s.wire

theorem DownInv.congr {s t : Relay κ} (h : DownInv s) (hdown : t.down = s.down)
    (hfrom : t.fromOrigin = s.fromOrigin) (hwork : t.downWork = s.downWork) (hwire : t.wire = s.wire)
    (hsent : t.finSent = s.finSent) (hcause : t.finCause = s.finCause) : DownInv t := by
  constructor
  · rw [hwire, hwork, hfrom]
    exact h.relayed
  · rw [hdown]
    exact h.hands
  · rw [hdown, hwork, hcause]
    exact h.running
  · rw [hdown, hwork, hcause]
    exact h.finished
  · rw [hwire, hsent]
    exact h.fins
  · rw [hsent, hcause]
    exact h.cause
  · rw [hwire]
    exact h.last

/-- Work of the other half on the queue does not count. -/
theorem downWork_upSends {s t : Relay κ} {ev : EdgeWrite} (hev : ev.ofDown = false)
    (hwriter : t.writer = s.writer) (hdown : t.down = s.down) (hqueue : t.queue = s.queue ++ [ev]) :
    t.downWork = s.downWork := by
  simp [Relay.downWork, Relay.work, hwriter, hdown, hqueue, List.filter_append, hev]

theorem DownInv.stepUp {s t : Relay κ} {e : Event} (h : DownInv s) (hu : UpInv s) (hs : UpStep s e t) :
    DownInv t := by
  have hev {ev : EdgeWrite} {last : Bool} (hup : s.up = .sending ev last) : ev.ofDown = false := by
    obtain ⟨hfin, hdata, -⟩ := hu.sends ev last hup
    cases ev with
    | data d => exact absurd rfl (hdata d)
    | fin => exact absurd rfl hfin
    | _ => rfl
  cases hs with
  | reads f rest hup hst =>
    rw [Relay.handle_eq]
    exact h.congr rfl rfl rfl rfl rfl rfl
  | sends ev hup hq => exact h.congr rfl rfl (downWork_upSends (hev hup) rfl rfl rfl) rfl rfl rfl
  | sendsLast ev hup hq => exact h.congr rfl rfl (downWork_upSends (hev hup) rfl rfl rfl) rfl rfl rfl
  | _ => exact h.congr rfl rfl rfl rfl rfl rfl

/-- The half is about to send its FIN: a dial channel dropped, or the Origin's end. -/
theorem DownInv.finishes {s : Relay κ} (h : DownInv s) (hd : s.down = .waiting ∨ s.down = .reading) :
    DownInv { s with down := .sending .fin } := by
  have hin : s.down.inHand = [] := by
    rcases hd with hd | hd
    · rw [hd]; rfl
    · rw [hd]; rfl
  have hwork : Relay.downWork { s with down := .sending .fin } = s.downWork ++ [.fin] := by
    calc
      (s.work ++ [EdgeWrite.fin]).filter EdgeWrite.ofDown
        = s.work.filter EdgeWrite.ofDown ++ [.fin] := by rw [List.filter_append]; rfl
      _ = s.downWork ++ [.fin] := by rw [Relay.downWork, hin, List.append_nil]
  obtain ⟨hnot, hcause⟩ := h.running (by rcases hd with hd | hd <;> simp [hd])
    (by rcases hd with hd | hd <;> simp [hd])
  refine ⟨?_, ?_, by simp, fun _ => .inl ⟨s.downWork, hwork, hnot, hcause⟩, h.fins, h.cause, h.last⟩
  · rw [hwork, workData_append, ← List.append_assoc, h.relayed]
    simp [workData]
  · rintro ev hev
    cases hev
    exact .inl rfl

theorem DownInv.stepDown {s t : Relay κ} {e : Event} (h : DownInv s) (hs : DownStep s e t) : DownInv t := by
  cases hs with
  | fails text hd => exact h.congr rfl rfl rfl rfl rfl rfl
  | dialed hd ho =>
    have hwork : Relay.downWork { s with down := .reading } = s.downWork := by
      simp [Relay.downWork, Relay.work, hd, Down.inHand]
    obtain ⟨h1, h2⟩ := h.running (by simp [hd]) (by simp [hd])
    refine ⟨hwork.symm ▸ h.relayed, by simp, fun _ _ => ⟨hwork.symm ▸ h1, h2⟩, by simp, h.fins, h.cause,
      h.last⟩
  | gives bytes hd hne hle =>
    have hwork : Relay.downWork
        { s with fromOrigin := s.fromOrigin ++ bytes, down := .sending (.data bytes) } =
        s.downWork ++ [.data bytes] := by
      simp [Relay.downWork, Relay.work, hd, Down.inHand, List.filter_append, EdgeWrite.ofDown]
    obtain ⟨h1, h2⟩ := h.running (by simp [hd]) (by simp [hd])
    constructor
    · rw [hwork, workData_append, ← List.append_assoc, h.relayed]
      simp [workData]
    · rintro ev hev
      cases hev
      exact .inr ⟨bytes, rfl⟩
    · intro _ _
      rw [hwork]
      exact ⟨by simpa using h1, h2⟩
    · simp
    · exact h.fins
    · exact h.cause
    · exact h.last
  | dropped hd ho => exact h.finishes (.inl hd)
  | ends hd => exact h.finishes (.inr hd)
  | sends ev hd hq =>
    -- what the half had in hand is at the queue's end now
    have hwork : Relay.downWork { s with queue := s.queue ++ [ev], down := .after ev } = s.downWork := by
      have hin : (Down.after ev).inHand = [] := by cases ev <;> rfl
      simp only [Relay.downWork, Relay.work, hd, hin, List.append_nil, List.append_assoc]
      rfl
    rcases h.hands ev hd with rfl | ⟨d, rfl⟩
    · refine ⟨hwork.symm ▸ h.relayed, by simp [Down.after], by simp [Down.after], ?_, h.fins, h.cause, h.last⟩
      rintro -
      rw [hwork]
      exact h.finished (.inr hd)
    · obtain ⟨h1, h2⟩ := h.running (by simp [hd]) (by simp [hd])
      exact ⟨hwork.symm ▸ h.relayed, by simp [Down.after], fun _ _ => ⟨hwork.symm ▸ h1, h2⟩,
        by simp [Down.after], h.fins, h.cause, h.last⟩

/-- What a unit of work puts on the wire. -/
def EdgeWrite.frames : EdgeWrite → List WireFrame
  | .data payload => [.data payload]
  | .ack c => [.keepaliveAck c]
  | .fin => [.fin]
  | _ => []

/-- What writing a unit of work does to the wire. -/
structure Applied (s t : Relay κ) (ev : EdgeWrite) : Prop where
  down : t.down = s.down
  fromOrigin : t.fromOrigin = s.fromOrigin
  work : s.downWork = [ev].filter EdgeWrite.ofDown ++ t.downWork
  wire : t.wire = s.wire ++ ev.frames
  finSent : t.finSent = (s.finSent || ev == .fin)
  finCause : t.finCause = if ev = .fin then some .queued else s.finCause

/-- Nothing of this half is written behind its FIN. -/
theorem DownInv.not_queued {s t : Relay κ} (h : DownInv s) {ev : EdgeWrite} (ha : Applied s t ev)
    (hev : ev.ofDown = true) : s.finCause ≠ some .queued := by
  intro hq
  by_cases hd : s.down = .done ∨ s.down = .sending .fin
  · rcases h.finished hd with ⟨pre, -, -, hne⟩ | ⟨hempty, -⟩
    · exact hne hq
    · have hwork := ha.work
      rw [hempty] at hwork
      simp [hev] at hwork
  · rw [not_or] at hd
    exact (h.running hd.1 hd.2).2 hq

theorem DownInv.not_sent {s t : Relay κ} (h : DownInv s) {ev : EdgeWrite} (ha : Applied s t ev)
    (hidle : s.finCause ≠ some .idleBound) (hev : ev.ofDown = true) : .fin ∉ s.wire := by
  rw [h.fins, h.cause]
  intro hne
  cases hcause : s.finCause with
  | none => exact hne hcause
  | some cause =>
    cases cause with
    | queued => exact h.not_queued ha hev hcause
    | idleBound => exact hidle hcause

theorem DownInv.applyData {s t : Relay κ} (h : DownInv s) {d : Bytes} (ha : Applied s t (.data d))
    (hidle : s.finCause ≠ some .idleBound) : DownInv t := by
  have hwork : s.downWork = .data d :: t.downWork := ha.work
  have hwire : t.wire = s.wire ++ [.data d] := ha.wire
  have hsent : t.finSent = s.finSent := by simp [ha.finSent]
  have hcause : t.finCause = s.finCause := by simp [ha.finCause]
  constructor
  · rw [ha.fromOrigin, ← h.relayed, hwork, hwire, wireData_append]
    simp [wireData, workData]
  · rw [ha.down]
    exact h.hands
  · intro h1 h2
    rw [ha.down] at h1 h2
    obtain ⟨h3, h4⟩ := h.running h1 h2
    rw [hwork] at h3
    exact ⟨fun hmem => h3 (List.mem_cons_of_mem _ hmem), hcause ▸ h4⟩
  · intro hd
    rw [ha.down] at hd
    rcases h.finished hd with ⟨pre, hpre, hnot, hne⟩ | ⟨hempty, -⟩
    · left
      rw [hwork] at hpre
      cases pre with
      | nil => cases (List.cons.inj hpre).1
      | cons x pre =>
        obtain ⟨-, hpre⟩ := List.cons.inj hpre
        exact ⟨pre, hpre, fun hmem => hnot (List.mem_cons_of_mem _ hmem), hcause ▸ hne⟩
    · rw [hwork] at hempty
      cases hempty
  · rw [hwire, hsent, ← h.fins]
    simp
  · rw [hsent, hcause]
    exact h.cause
  · rw [hwire]
    exact h.last.append (fun hmem => absurd hmem (h.not_sent ha hidle rfl))

theorem DownInv.applyFin {s t : Relay κ} (h : DownInv s) (ha : Applied s t .fin)
    (hidle : s.finCause ≠ some .idleBound) : DownInv t := by
  have hwork : s.downWork = .fin :: t.downWork := ha.work
  have hwire : t.wire = s.wire ++ [.fin] := ha.wire
  -- the FIN is the last unit of its half
  have hdone : (s.down = .done ∨ s.down = .sending .fin) ∧ t.downWork = [] := by
    by_cases hd : s.down = .done ∨ s.down = .sending .fin
    · refine ⟨hd, ?_⟩
      rcases h.finished hd with ⟨pre, hpre, hnot, -⟩ | ⟨hempty, -⟩
      · rw [hwork] at hpre
        cases pre with
        | nil => exact (List.cons.inj hpre).2
        | cons x pre =>
          obtain ⟨rfl, -⟩ := List.cons.inj hpre
          exact absurd (List.mem_cons_self ..) hnot
      · rw [hwork] at hempty
        cases hempty
    · rw [not_or] at hd
      have hnot := (h.running hd.1 hd.2).1
      rw [hwork] at hnot
      exact absurd (List.mem_cons_self ..) hnot
  constructor
  · rw [ha.fromOrigin, ← h.relayed, hwork, hwire, wireData_append, hdone.2]
    simp [wireData, workData]
  · rw [ha.down]
    exact h.hands
  · intro h1 h2
    rw [ha.down] at h1 h2
    rcases hdone.1 with hd | hd
    · exact absurd hd h1
    · exact absurd hd h2
  · intro _
    exact .inr ⟨hdone.2, by simp [ha.finCause]⟩
  · simp [hwire, ha.finSent]
  · simp [ha.finSent, ha.finCause]
  · rw [hwire]
    exact h.last.append (fun hmem => absurd hmem (h.not_sent ha hidle rfl))

/-- A frame that is neither DATA nor FIN goes anywhere on the wire. -/
theorem DownInv.wireOther {s t : Relay κ} (h : DownInv s) (fs : List WireFrame)
    (hfs : ∀ f ∈ fs, f ≠ .fin ∧ ∀ d, f ≠ .data d) (hdown : t.down = s.down)
    (hfrom : t.fromOrigin = s.fromOrigin) (hwork : t.downWork = s.downWork) (hwire : t.wire = s.wire ++ fs)
    (hsent : t.finSent = s.finSent) (hcause : t.finCause = s.finCause) : DownInv t := by
  have hdata : wireData fs = [] := by
    simp only [wireData, List.flatMap_eq_nil_iff]
    intro f hf
    split
    · exact absurd rfl ((hfs _ hf).2 _)
    · rfl
  have hlast : EachAfter (fun before f => .fin ∈ before → f ≠ .fin ∧ ∀ d, f ≠ .data d) (s.wire ++ fs) := by
    clear hwire hdata
    induction fs using List.reverseRecOn with
    | nil => simpa using h.last
    | append_singleton fs f ih =>
      rw [← List.append_assoc]
      exact (ih (fun g hg => hfs g (List.mem_append_left _ hg))).append
        (fun _ => hfs f (List.mem_append_right _ (List.mem_singleton_self f)))
  constructor
  · rw [hwire, wireData_append, hdata, List.append_nil, hwork, hfrom]
    exact h.relayed
  · rw [hdown]
    exact h.hands
  · rw [hdown, hwork, hcause]
    exact h.running
  · rw [hdown, hwork, hcause]
    exact h.finished
  · rw [hwire, hsent, ← h.fins, List.mem_append]
    constructor
    · rintro (hm | hm)
      · exact hm
      · exact absurd rfl (hfs _ hm).1
    · exact .inl
  · rw [hsent, hcause]
    exact h.cause
  · rw [hwire]
    exact hlast

theorem DownInv.apply {s t : Relay κ} (h : DownInv s) {ev : EdgeWrite} (ha : Applied s t ev)
    (hidle : s.finCause ≠ some .idleBound) : DownInv t := by
  cases ev with
  | data d => exact h.applyData ha hidle
  | fin => exact h.applyFin ha hidle
  | ack c =>
    exact h.wireOther _ (by simp [EdgeWrite.frames]) ha.down ha.fromOrigin ha.work.symm ha.wire
      (by simp [ha.finSent]) (by simp [ha.finCause])
  | ackReceived c =>
    exact h.wireOther _ (by simp [EdgeWrite.frames]) ha.down ha.fromOrigin ha.work.symm ha.wire
      (by simp [ha.finSent]) (by simp [ha.finCause])
  | peerFin =>
    exact h.wireOther _ (by simp [EdgeWrite.frames]) ha.down ha.fromOrigin ha.work.symm ha.wire
      (by simp [ha.finSent]) (by simp [ha.finCause])

/-- The FIN of the idle bound. -/
theorem DownInv.idleFin {s t : Relay κ} (h : DownInv s) (hnot : s.finSent = false) (hdown : t.down = s.down)
    (hfrom : t.fromOrigin = s.fromOrigin) (hwork : t.downWork = s.downWork)
    (hwire : t.wire = s.wire ++ [.fin]) (hsent : t.finSent = true) (hcause : t.finCause = some .idleBound) :
    DownInv t := by
  have hfin : .fin ∉ s.wire := by simp [h.fins, hnot]
  have hnone : s.finCause = none := by
    by_contra hne
    simp [h.cause.mpr hne] at hnot
  constructor
  · rw [hwire, wireData_append, hwork, hfrom, ← h.relayed]
    simp [wireData]
  · rw [hdown]
    exact h.hands
  · intro h1 h2
    rw [hdown] at h1 h2
    rw [hwork, hcause]
    exact ⟨(h.running h1 h2).1, by simp⟩
  · intro hd
    rw [hdown] at hd
    rw [hwork, hcause]
    rcases h.finished hd with ⟨pre, hpre, hmem, -⟩ | ⟨-, hq⟩
    · exact .inl ⟨pre, hpre, hmem, by simp⟩
    · simp [hnone] at hq
  · simp [hwire, hsent]
  · simp [hsent, hcause]
  · rw [hwire]
    exact h.last.append (fun hmem => absurd hmem hfin)

/-- There is one FIN at most; no DATA stands behind it, and before a queued one all that the Origin gave. -/
theorem DownInv.fin_last {s : Relay κ} (h : DownInv s) {pre post : List WireFrame}
    (hwire : s.wire = pre ++ .fin :: post) : .fin ∉ pre ∧ .fin ∉ post ∧ (∀ d, .data d ∉ post) ∧
      (s.finCause = some .queued → wireData pre = s.fromOrigin) := by
  have hpost (f : WireFrame) (hf : f ∈ post) : f ≠ .fin ∧ ∀ d, f ≠ .data d := by
    obtain ⟨a, b, rfl⟩ := List.append_of_mem hf
    refine h.last (pre ++ .fin :: a) f b ?_ (by simp)
    rw [hwire, List.append_assoc, List.cons_append]
  have hempty : wireData post = [] := by
    simp only [wireData, List.flatMap_eq_nil_iff]
    intro f hf
    split
    · exact absurd rfl ((hpost _ hf).2 _)
    · rfl
  refine ⟨fun hf => (h.last pre .fin post hwire hf).1 rfl, fun hf => (hpost _ hf).1 rfl,
    fun d hf => (hpost _ hf).2 d rfl, fun hq => ?_⟩
  -- a queued FIN was the last unit of its half
  have hwork : s.downWork = [] := by
    by_cases hd : s.down = .done ∨ s.down = .sending .fin
    · rcases h.finished hd with ⟨-, -, -, hne⟩ | ⟨hwork, -⟩
      · exact absurd hq hne
      · exact hwork
    · rw [not_or] at hd
      exact absurd hq (h.running hd.1 hd.2).2
  have hrel := h.relayed
  have hcons : wireData (.fin :: post) = wireData post := rfl
  rw [hwork, hwire, wireData_append, hcons, hempty] at hrel
  simpa [workData] using hrel

section
variable [KeepaliveTracker κ]

theorem DownInv.start : DownInv (Relay.start : Relay κ) where
  relayed := rfl
  hands ev hd := by cases hd
  running _ _ := ⟨by simp [Relay.downWork, Relay.work, Relay.start, Writer.inHand, Down.inHand], by
    simp [Relay.start]⟩
  finished hd := by
    rcases hd with hd | hd <;> cases hd
  fins := by simp [Relay.start]
  cause := by simp [Relay.start]
  last := EachAfter.nil _

theorem Relay.applied {s : Relay κ} {ev : EdgeWrite} {drain : Bool} {w : Writer}
    (hw : s.writer = .applying ev drain) (hin : w.inHand = []) :
    Applied s { s.apply ev with writer := w } ev := by
  constructor
  · exact (s.apply_sameHalves ev).down
  · exact (s.apply_sameHalves ev).fromOrigin
  · have hqueue : (s.apply ev).queue = s.queue := by cases ev <;> rfl
    have hev : (Writer.applying ev drain).inHand = [ev] := rfl
    simp only [Relay.downWork, Relay.work, hw, hev, hin, hqueue, (s.apply_sameHalves ev).down,
      List.nil_append, List.append_assoc, List.filter_append]
  · cases ev <;> simp [Relay.apply, EdgeWrite.frames]
  · cases ev <;> simp [Relay.apply]
  · cases ev <;> simp [Relay.apply]

end

end

end CtAgent.Serve.Framed
