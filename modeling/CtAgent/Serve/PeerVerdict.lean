import CtAgent.Serve.FramedRelay

/-! The dead-peer verdict of the framed relay, and the way of an ACK to the tracker it is given on. -/
namespace CtAgent.Serve.Framed

open CtAgent.Lib KeepaliveTracker

section
variable {κ : Type}

/-- The ACK of `c` is on its way from the edge to the tracker. -/
def Relay.Flying (s : Relay κ) (c : ℕ) : Prop :=
  some (.keepaliveAck c) ∈ s.stream ∨ (∃ last, s.up = .sending (.ackReceived c) last) ∨
    .ackReceived c ∈ s.work

/-- The ACK of `c` is with the half from the edge still: unread, or waiting for room in the queue. -/
def Relay.ackAside (s : Relay κ) (c : ℕ) : Bool :=
  s.stream.contains (some (.keepaliveAck c)) ||
  match s.up with
  | .sending ev _ => ev == .ackReceived c
  | _ => false

/-- The edge puts the ACK of every keepalive on the stream less than `keepaliveDeadAfter` after that
keepalive was written: the clock does not get there before. -/
def Relay.answersInTime (s : Relay κ) : Event → Bool
  | .tick ms => s.keepalives.all (fun x =>
      s.now + ms < x.2 + keepaliveDeadAfter || s.answered.contains x.1)
  | _ => true

/-- When the queue is drained for the verdict, no ACK of a keepalive that is due stands aside. -/
def Relay.judgesCredited (s : Relay κ) : Event → Bool
  | .judges => s.keepalives.all (fun x =>
      s.now < x.2 + keepaliveDeadAfter || !s.ackAside x.1)
  | _ => true

theorem Relay.Flying.aside {s : Relay κ} {c : ℕ} (h : s.Flying c) (ha : s.ackAside c = false) :
    .ackReceived c ∈ s.work := by
  simp only [Relay.ackAside, Bool.or_eq_false_iff] at ha
  rcases h with h | ⟨last, h⟩ | h
  · simp [h] at ha
  · simp [h] at ha
  · exact h

/-- An ACK stays on its way where the stream and the work only grow. -/
theorem Relay.Flying.mono {s t : Relay κ} {c : ℕ} (h : s.Flying c) (hstream : s.stream ⊆ t.stream)
    (hwork : s.work ⊆ t.work) (hup : ∀ last, s.up = .sending (.ackReceived c) last → t.Flying c) :
    t.Flying c := by
  rcases h with h | ⟨last, h⟩ | h
  · exact .inl (hstream h)
  · exact hup last h
  · exact .inr (.inr (hwork h))

section
variable [KeepaliveTracker κ]

/-- What is outstanding has been written and, where the edge has answered it, its ACK is on its way. -/
structure Credit (s : Relay κ) : Prop where
  written : ∀ x ∈ outstanding s.tracker, x ∈ s.keepalives
  flying : ∀ x ∈ outstanding s.tracker, x.1 ∈ s.answered → s.Flying x.1
  /-- the keepalive that is just being written -/
  writing : s.writer = .keepaliving → s.counter ∈ s.answered → s.Flying s.counter
  counted : ∀ c ∈ s.answered, c ≤ s.counter
  prompt : ∀ x ∈ s.keepalives, x.2 + keepaliveDeadAfter ≤ s.now → x.1 ∈ s.answered

theorem Credit.start : Credit (Relay.start : Relay κ) where
  written x hx := by simp [Relay.start, outstanding_new] at hx
  flying x hx := by simp [Relay.start, outstanding_new] at hx
  writing h := by cases h
  counted c hc := by cases hc
  prompt x hx := by cases hx

/-- What changes neither the tracker nor the counters keeps the credit, if every ACK stays on its way. -/
theorem Credit.of_flying {s t : Relay κ} (h : Credit s) (htracker : t.tracker = s.tracker)
    (hcounter : t.counter = s.counter) (hkeepalives : t.keepalives = s.keepalives)
    (hanswered : t.answered = s.answered) (hnow : t.now = s.now)
    (hwriter : t.writer = .keepaliving → s.writer = .keepaliving)
    (hfly : ∀ c, s.Flying c → t.Flying c) : Credit t where
  written x hx := by
    rw [htracker] at hx
    rw [hkeepalives]
    exact h.written x hx
  flying x hx ha := by
    rw [htracker] at hx
    rw [hanswered] at ha
    exact hfly _ (h.flying x hx ha)
  writing hw ha := by
    rw [hanswered, hcounter] at ha
    rw [hcounter]
    exact hfly _ (h.writing (hwriter hw) ha)
  counted c hc := by
    rw [hanswered] at hc
    rw [hcounter]
    exact h.counted c hc
  prompt x hx ht := by
    rw [hkeepalives] at hx
    rw [hnow] at ht
    rw [hanswered]
    exact h.prompt x hx ht

theorem Credit.edgePuts {s : Relay κ} (h : Credit s) (f : Option Frame) :
    Credit { s with stream := s.stream ++ [f], answered := s.noteAnswer f } := by
  have hfly (c : ℕ) (hc : s.Flying c) :
      Relay.Flying { s with stream := s.stream ++ [f], answered := s.noteAnswer f } c := by
    rcases hc with hc | hc | hc
    · exact .inl (List.mem_append_left _ hc)
    · exact .inr (.inl hc)
    · exact .inr (.inr hc)
  -- a counter noted only now has its ACK in the frame just put
  have hnote (c : ℕ) (hc : c ∈ s.noteAnswer f) :
      c ∈ s.answered ∨ (f = some (.keepaliveAck c) ∧ c ≤ s.counter) := by
    unfold Relay.noteAnswer at hc
    split at hc
    · split_ifs at hc with hb
      · rcases List.mem_append.mp hc with hc | hc
        · exact .inl hc
        · obtain rfl := List.mem_singleton.mp hc
          exact .inr ⟨rfl, hb.2⟩
      · exact .inl hc
    · exact .inl hc
  have hnew (c : ℕ) (hc : f = some (.keepaliveAck c)) :
      Relay.Flying { s with stream := s.stream ++ [f], answered := s.noteAnswer f } c :=
    .inl (List.mem_append_right _ (List.mem_singleton.mpr hc.symm))
  have hkept (c : ℕ) (hc : c ∈ s.answered) : c ∈ s.noteAnswer f := by
    unfold Relay.noteAnswer
    split
    · split_ifs
      · exact List.mem_append_left _ hc
      · exact hc
    · exact hc
  constructor
  · exact h.written
  · intro x hx ha
    rcases hnote _ ha with ha | ha
    · exact hfly _ (h.flying x hx ha)
    · exact hnew _ ha.1
  · intro hw ha
    rcases hnote _ ha with ha | ha
    · exact hfly _ (h.writing hw ha)
    · exact hnew _ ha.1
  · intro c hc
    rcases hnote _ hc with hc | hc
    · exact h.counted c hc
    · exact hc.2
  · intro x hx ht
    exact hkept _ (h.prompt x hx ht)

/-- Reading hands an ACK on. -/
theorem Credit.handle {s : Relay κ} (h : Credit s) {f : Option Frame} {rest : List (Option Frame)}
    (hu : s.up = .reading) (hs : s.stream = f :: rest) :
    Credit (Relay.handle { s with read := s.read ++ [f], stream := rest } f) := by
  rw [Relay.handle_eq]
  refine h.of_flying rfl rfl rfl rfl rfl id ?_
  intro c hc
  rcases hc with hc | ⟨last, hc⟩ | hc
  · rw [hs] at hc
    rcases List.mem_cons.mp hc with rfl | hc
    · exact .inr (.inl ⟨false, rfl⟩)
    · exact .inl hc
  · rw [hu] at hc
    cases hc
  · exact .inr (.inr hc)

/-- The half from the edge takes an ACK along in the order stream, hand, queue. -/
theorem Credit.stepUp {s t : Relay κ} {e : Event} (h : Credit s) (hs : UpStep s e t) : Credit t := by
  have hqueue (ev : EdgeWrite) : s.work ⊆ s.writer.inHand ++ (s.queue ++ [ev]) := by
    rw [← List.append_assoc]
    exact List.subset_append_left _ _
  cases hs with
  | reads f rest hu hs => exact h.handle hu hs
  | dials d hu hd =>
    refine h.of_flying rfl rfl rfl rfl rfl id
      (fun c hc => hc.mono (List.Subset.refl _) (List.Subset.refl _) ?_)
    intro last hc
    cases hu.symm.trans hc
  | takes n rest hu hn hle =>
    refine h.of_flying rfl rfl rfl rfl rfl id
      (fun c hc => hc.mono (List.Subset.refl _) (List.Subset.refl _) ?_)
    intro last hc
    cases hu.symm.trans hc
  | halfCloses last hu =>
    refine h.of_flying rfl rfl rfl rfl rfl id
      (fun c hc => hc.mono (List.Subset.refl _) (List.Subset.refl _) ?_)
    intro last hc
    cases hu.symm.trans hc
  | sends ev hu hq =>
    refine h.of_flying rfl rfl rfl rfl rfl id (fun c hc => hc.mono (List.Subset.refl _) (hqueue ev) ?_)
    intro last hc
    cases hu.symm.trans hc
    exact .inr (.inr (by simp [Relay.work]))
  | sendsLast ev hu hq =>
    refine h.of_flying rfl rfl rfl rfl rfl id (fun c hc => hc.mono (List.Subset.refl _) (hqueue ev) ?_)
    intro last hc
    cases hu.symm.trans hc
    exact .inr (.inr (by simp [Relay.work]))
  | fails e text hu => exact h.of_flying rfl rfl rfl rfl rfl id (fun _ hc => hc)

theorem Credit.stepDown {s t : Relay κ} {e : Event} (h : Credit s) (hs : DownStep s e t) : Credit t := by
  cases hs with
  | sends ev hd hq =>
    refine h.of_flying rfl rfl rfl rfl rfl id (fun c hc => hc.mono (List.Subset.refl _) ?_ ?_)
    · simp only [Relay.work, ← List.append_assoc]
      exact List.subset_append_left _ _
    · intro last hc
      exact .inr (.inl ⟨last, hc⟩)
  | dialed hd ho => exact h.of_flying rfl rfl rfl rfl rfl id (fun _ hc => hc)
  | dropped hd ho => exact h.of_flying rfl rfl rfl rfl rfl id (fun _ hc => hc)
  | gives bytes hd hne hle => exact h.of_flying rfl rfl rfl rfl rfl id (fun _ hc => hc)
  | ends hd => exact h.of_flying rfl rfl rfl rfl rfl id (fun _ hc => hc)
  | fails text hd => exact h.of_flying rfl rfl rfl rfl rfl id (fun _ hc => hc)

/-- A unit of work is used up; an ACK among it takes its keepalive off the tracker. -/
theorem Credit.apply {s : Relay κ} (h : Credit s) {ev : EdgeWrite} {w w' : Writer}
    (hw : s.writer = w) (hev : w.inHand = [ev]) (hw' : w'.inHand = []) (hk : w' ≠ .keepaliving) :
    Credit { s.apply ev with writer := w' } := by
  have hwork : s.work = ev :: s.queue := by rw [Relay.work, hw, hev, List.singleton_append]
  -- every other ACK stays where it is
  have hfly (c : ℕ) (hne : ev ≠ .ackReceived c) (hc : s.Flying c) :
      Relay.Flying { s.apply ev with writer := w' } c := by
    have hparts : (s.apply ev).stream = s.stream ∧ (s.apply ev).up = s.up ∧
        (s.apply ev).queue = s.queue := by
      cases ev <;> exact ⟨rfl, rfl, rfl⟩
    rcases hc with hc | ⟨last, hc⟩ | hc
    · exact .inl (hparts.1.symm ▸ hc)
    · exact .inr (.inl ⟨last, hparts.2.1.symm ▸ hc⟩)
    · rw [hwork] at hc
      rcases List.mem_cons.mp hc with hc | hc
      · exact absurd hc.symm hne
      · refine .inr (.inr ?_)
        simp only [Relay.work, hw', hparts.2.2, List.nil_append]
        exact hc
  cases ev with
  | ackReceived c =>
    constructor
    · intro x hx
      exact h.written x (outstanding_ack _ _ x hx).1
    · intro x hx ha
      obtain ⟨hx, hne⟩ := outstanding_ack _ _ x hx
      exact hfly x.1 (fun heq => hne (EdgeWrite.ackReceived.inj heq).symm) (h.flying x hx ha)
    · intro hwk
      exact absurd hwk hk
    · exact h.counted
    · exact h.prompt
  | peerFin =>
    constructor
    · intro x hx
      simp [Relay.apply, outstanding_new] at hx
    · intro x hx
      simp [Relay.apply, outstanding_new] at hx
    · intro hwk
      exact absurd hwk hk
    · exact h.counted
    · exact h.prompt
  | _ =>
    constructor
    · exact h.written
    · intro x hx ha
      exact hfly x.1 (by simp) (h.flying x hx ha)
    · intro hwk
      exact absurd hwk hk
    · exact h.counted
    · exact h.prompt

/-- A change of the writer's phase, between phases without anything in hand. -/
theorem Credit.phase {s : Relay κ} (h : Credit s) {w : Writer} (hw : s.writer.inHand = w.inHand)
    (hk : w ≠ .keepaliving) : Credit { s with writer := w } := by
  refine h.of_flying rfl rfl rfl rfl rfl (fun hwk => absurd hwk hk) (fun c hc => ?_)
  refine hc.mono (List.Subset.refl _) ?_ (fun last hc => .inr (.inl ⟨last, hc⟩))
  simp only [Relay.work, hw]
  exact List.Subset.refl _

theorem Credit.loopTop {s : Relay κ} (h : Credit s) (hw : s.writer.inHand = []) : Credit s.loopTop := by
  obtain ⟨w, hlt, hw', hk⟩ := s.loopTop_phase
  rw [hlt]
  exact h.phase (hw.trans hw'.symm) hk

/-- A counter that no ACK can have had yet. -/
theorem Credit.keepaliveDue {s : Relay κ} (h : Credit s) (hw : s.writer.inHand = []) :
    Credit { s with counter := s.counter + 1, writer := .keepaliving } := by
  have hfly (c : ℕ) (hc : s.Flying c) :
      Relay.Flying { s with counter := s.counter + 1, writer := .keepaliving } c := by
    refine hc.mono (List.Subset.refl _) ?_ (fun last hc => .inr (.inl ⟨last, hc⟩))
    simp only [Relay.work, hw]
    exact List.Subset.refl _
  constructor
  · exact h.written
  · exact fun x hx ha => hfly x.1 (h.flying x hx ha)
  · intro _ ha
    have hle : s.counter + 1 ≤ s.counter := h.counted _ ha
    omega
  · intro c hc
    have hle := h.counted c hc
    exact Nat.le_succ_of_le hle
  · exact h.prompt

/-- The keepalive is written now, so that its answer has all the time. -/
theorem Credit.keptAlive {s : Relay κ} (h : Credit s) (hw : s.writer = .keepaliving) :
    Credit s.keptAlive.loopTop := by
  obtain ⟨w, hlt, hw', hk⟩ := s.keptAlive.loopTop_phase
  rw [hlt]
  have hfly (c : ℕ) (hc : s.Flying c) : Relay.Flying { s.keptAlive with writer := w } c := by
    refine hc.mono (List.Subset.refl _) ?_ (fun last hc => .inr (.inl ⟨last, hc⟩))
    simp only [Relay.work, hw, hw']
    exact List.Subset.refl _
  -- tracked before, or the one just written
  have htracked : ∀ x ∈ outstanding s.keptAlive.tracker,
      x ∈ outstanding s.tracker ∨ x = (s.counter, s.now) := by
    intro x hx
    simp only [Relay.keptAlive] at hx
    split_ifs at hx
    · exact .inl hx
    · exact outstanding_sent _ _ _ x hx
  constructor
  · intro x hx
    rcases htracked x hx with hx | rfl
    · exact List.mem_append_left _ (h.written x hx)
    · exact List.mem_append_right _ (List.mem_singleton_self _)
  · intro x hx ha
    rcases htracked x hx with hx | rfl
    · exact hfly _ (h.flying x hx ha)
    · exact hfly _ (h.writing hw ha)
  · intro hwk
    exact absurd hwk hk
  · exact h.counted
  · intro x hx ht
    rcases List.mem_append.mp hx with hx | hx
    · exact h.prompt x hx ht
    · obtain rfl := List.mem_singleton.mp hx
      have hlt : s.now + keepaliveDeadAfter ≤ s.now := ht
      simp only [keepaliveDeadAfter] at hlt
      omega

theorem Credit.stepWriter {idleBound : ℕ} {s t : Relay κ} {e : Event} (h : Credit s)
    (hs : WriterStep idleBound s e t) : Credit t := by
  cases hs with
  | receives deadline ev rest hw hq =>
    refine h.of_flying rfl rfl rfl rfl rfl (fun hwk => by cases hwk) (fun c hc => ?_)
    refine hc.mono (List.Subset.refl _) ?_ (fun last hc => .inr (.inl ⟨last, hc⟩))
    simp only [Relay.work, hw, hq, Writer.inHand, List.nil_append, List.singleton_append]
    exact List.Subset.refl _
  | drains ev rest hw hq =>
    refine h.of_flying rfl rfl rfl rfl rfl (fun hwk => by cases hwk) (fun c hc => ?_)
    refine hc.mono (List.Subset.refl _) ?_ (fun last hc => .inr (.inl ⟨last, hc⟩))
    simp only [Relay.work, hw, hq, Writer.inHand, List.nil_append, List.singleton_append]
    exact List.Subset.refl _
  | findsClosed deadline hw hq hu hd => exact h.phase (by rw [hw]; rfl) (by simp)
  | idleDue deadline hw hp hf ht => exact h.phase (by rw [hw]; rfl) (by simp)
  | deadlineDue d hw ht => exact h.phase (by rw [hw]; rfl) (by simp)
  | keepaliveDue deadline hw ht => exact h.keepaliveDue (by rw [hw]; rfl)
  | applies ev hw =>
    obtain ⟨w, hlt, hw', hk⟩ := (s.apply ev).loopTop_phase
    rw [hlt]
    exact h.apply hw rfl hw' hk
  | drained ev hw => exact h.apply hw rfl rfl (by simp)
  | keepsAlive hw => exact h.keptAlive hw
  | fins hw =>
    have hfin : Credit s.idleFinned :=
      h.of_flying rfl rfl rfl rfl rfl (fun hwk => by cases hw.symm.trans hwk) (fun _ hc => hc)
    exact hfin.loopTop (by simp [Relay.idleFinned, hw, Writer.inHand])
  | judges hw hq =>
    rcases s.judge_cases with hj | ⟨age, hj, -⟩
    · rw [hj]
      exact h.loopTop (by rw [hw]; rfl)
    · rw [hj]
      exact h.of_flying rfl rfl rfl rfl rfl id (fun _ hc => hc)
  | fails text => exact h.of_flying rfl rfl rfl rfl rfl id (fun _ hc => hc)
  | shutsDown hw => exact h.of_flying rfl rfl rfl rfl rfl id (fun _ hc => hc)
  | shutdownFails text hw => exact h.of_flying rfl rfl rfl rfl rfl id (fun _ hc => hc)

theorem Credit.tick {s : Relay κ} (h : Credit s) {ms : ℕ} (ha : s.answersInTime (.tick ms) = true) :
    Credit { s with now := s.now + ms } where
  written := h.written
  flying := h.flying
  writing := h.writing
  counted := h.counted
  prompt x hx ht := by
    have hin := List.all_eq_true.mp ha x hx
    simp only [Bool.or_eq_true, decide_eq_true_eq, List.contains_iff_mem] at hin
    rcases hin with hlt | hmem
    · have hle : x.2 + keepaliveDeadAfter ≤ s.now + ms := ht
      omega
    · exact hmem

theorem Credit.step {idleBound : ℕ} {s t : Relay κ} {e : Event} (h : Credit s)
    (ha : s.answersInTime e = true) (hs : s.step idleBound e = some t) : Credit t := by
  obtain ⟨-, ⟨ms, rfl, rfl⟩ | ⟨f, rfl, -, rfl⟩ | hs | hs | hs⟩ := Relay.step_cases hs
  · exact h.tick ha
  · exact h.edgePuts f
  · exact h.stepUp hs
  · exact h.stepDown hs
  · exact h.stepWriter hs

/-- Where no due ACK stands aside, a verdict would fall on a keepalive whose ACK has been applied. -/
theorem Credit.no_verdict {idleBound : ℕ} {s t : Relay κ} {e : Event} (h : Credit s)
    (hc : s.judgesCredited e = true) (hs : s.step idleBound e = some t) (age : ℕ) :
    t.returned ≠ some (.error (.peerDead age)) := by
  obtain ⟨hr, ⟨ms, rfl, rfl⟩ | ⟨f, rfl, -, rfl⟩ | hs | hs | hs⟩ := Relay.step_cases hs
  · simp [hr]
  · simp [hr]
  · rcases hs.returned with hret | ⟨-, text, hret⟩
    · simp [hret, hr]
    · simp [hret]
  · rcases hs.returned with hret | ⟨text, -, hret⟩
    · simp [hret, hr]
    · simp [hret]
  · rcases hs.returned with hret | ⟨text, -, hret⟩ | ⟨-, -, hret⟩ | ⟨rfl, hw, hq, age', -, x, hx, hold⟩
    · simp [hret, hr]
    · simp [hret]
    · simp [hret]
    · -- the keepalive the verdict falls on was answered, and the ACK is nowhere on its way
      have hans : x.1 ∈ s.answered := h.prompt x (h.written x hx) hold
      have haside : s.ackAside x.1 = false := by
        have hx' := List.all_eq_true.mp hc x (h.written x hx)
        simpa [Nat.not_lt.mpr hold] using hx'
      have hack : .ackReceived x.1 ∈ s.work := (h.flying x hx hans).aside haside
      simp [Relay.work, hw, hq, Writer.inHand] at hack

/-- The edge answers in time, and no verdict passes over an ACK that stands aside. -/
def Relay.credited (s : Relay κ) (e : Event) : Bool := s.answersInTime e && s.judgesCredited e

/-- In all such runs the peer is never judged dead. -/
theorem answering_peer_not_dead (idleBound : ℕ) (es : List Event) (s : Relay κ)
    (h : run (guarded (Relay.step idleBound) Relay.credited) Relay.start es = some s) (age : ℕ) :
    s.returned ≠ some (.error (.peerDead age)) := by
  have hinv : Credit s ∧ ∀ age, s.returned ≠ some (.error (.peerDead age)) := by
    refine run_invariant (guarded (Relay.step idleBound) Relay.credited)
      (fun s => Credit s ∧ ∀ age, s.returned ≠ some (.error (.peerDead age))) ?_ es Relay.start s
      ⟨Credit.start, fun age h => by cases h⟩ h
    intro u e v hu hstep
    obtain ⟨hok, hstep⟩ := guarded_eq_some.mp hstep
    obtain ⟨ha, hc⟩ := (Bool.and_eq_true _ _).mp hok
    exact ⟨hu.1.step ha hstep, hu.1.no_verdict hc hstep⟩
  exact hinv.2 age

end

/-- The first ACK comes at the last moment and sits in the queue when the deadline fires. -/
def lastMoment : List Event :=
  [.tick 8000, .keepaliveDue, .writes, .tick 8000, .keepaliveDue, .writes, .tick 8000, .keepaliveDue, .writes,
    .tick 7999, .edgePuts (some (.keepaliveAck 1)), .tick 1, .upReads, .upSends, .deadlineDue,
      .drains, .writes,
    .judges]

theorem answering_peer_not_dead_sample :
    ∃ s : Relay (List (ℕ × ℕ)),
      run (guarded (Relay.step 60000) Relay.credited) Relay.start lastMoment = some s ∧
      ∀ age, s.returned ≠ some (.error (.peerDead age)) := by
  have hr : (run (guarded (Relay.step 60000) Relay.credited) (Relay.start : Relay (List (ℕ × ℕ)))
      lastMoment).map (fun s => s.tracker) = some [(2, 16000), (3, 24000)] := by decide
  obtain ⟨s, hs, -⟩ := Option.map_eq_some_iff.mp hr
  exact ⟨s, hs, answering_peer_not_dead 60000 lastMoment s hs⟩

/-- The Client sends one chunk after the other, and the Origin's socket takes them all. -/
def taken (chunk : Bytes) : ℕ → List Event
  | 0 => [.edgePuts (some (.data chunk)), .upReads, .dialEnds none, .originTakes chunk.length]
  | n + 1 => taken chunk n ++ [.edgePuts (some (.data chunk)), .upReads, .originTakes chunk.length]

/-- The relay then. -/
def takenUp (chunk : Bytes) (n : ℕ) : Relay (List (ℕ × ℕ)) :=
  { Relay.start with
    read := List.replicate (n + 1) (some (.data chunk))
    originW := true
    dial := .sent
    dials := 1
    toOrigin := (List.replicate (n + 1) chunk).flatten }

/-- The Origin takes a part of one more chunk and then no byte. -/
def blocks (chunk : Bytes) (part : ℕ) : List Event :=
  [.edgePuts (some (.data chunk)), .upReads, .originTakes part]

/-- A keepalive goes out, and the edge answers it at once. -/
def answeredKeepalive (counter : ℕ) : List Event :=
  [.tick keepaliveInterval, .keepaliveDue, .writes, .edgePuts (some (.keepaliveAck counter))]

/-- The relay with the rest of the chunk in hand. -/
def blocked (chunk : Bytes) (n part : ℕ) : Relay (List (ℕ × ℕ)) :=
  { Relay.start with
    read := List.replicate (n + 2) (some (.data chunk))
    up := .writing (chunk.drop part)
    originW := true
    dial := .sent
    dials := 1
    toOrigin := (List.replicate (n + 1) chunk).flatten ++ chunk.take part }

/-- Behind chunks and ACKs another frame is accepted. -/
theorem accepts_chunks (chunk : Bytes) (n : ℕ) (acks : List (Option Frame))
    (hacks : ∀ f ∈ acks, ∃ c, f = some (.keepaliveAck c)) (f : Frame) :
    accepts (List.replicate n (some (.data chunk)) ++ acks) (some f) = true := by
  have hkind {g : Option Frame} (hg : g ∈ List.replicate n (some (Frame.data chunk)) ++ acks) :
      g = some (.data chunk) ∨ ∃ c, g = some (.keepaliveAck c) := by
    rcases List.mem_append.mp hg with hg | hg
    · exact .inl (List.eq_of_mem_replicate hg)
    · exact .inr (hacks g hg)
  have hnone : none ∉ List.replicate n (some (Frame.data chunk)) ++ acks := by
    intro h
    rcases hkind h with h | ⟨c, h⟩ <;> cases h
  have hfin : some Frame.fin ∉ List.replicate n (some (Frame.data chunk)) ++ acks := by
    intro h
    rcases hkind h with h | ⟨c, h⟩ <;> cases h
  unfold accepts
  rw [List.contains_eq_mem, List.contains_eq_mem, decide_eq_false hnone, decide_eq_false hfin]
  rfl

section
variable {chunk : Bytes}

theorem run_taken (hne : chunk ≠ []) (n : ℕ) :
    run (guarded (Relay.step 60000) Relay.answersInTime) Relay.start (taken chunk n) =
      some (takenUp chunk n) := by
  have hpos : 0 < chunk.length := List.length_pos_iff.mpr hne
  induction n with
  | zero =>
    simp [run, taken, guarded, Relay.answersInTime, Relay.step, Relay.stepUp, Relay.stepDown,
      accepts, Relay.put,
      Relay.start, Relay.noteAnswer, Relay.handle, Up.write, takenUp, hne, hpos]
  | succ n ih =>
    have haccepts : accepts (List.replicate (n + 1) (some (.data chunk))) (some (.data chunk)) = true := by
      have h := accepts_chunks chunk (n + 1) [] (fun f hf => absurd hf List.not_mem_nil) (.data chunk)
      rwa [List.append_nil] at h
    have hread : List.replicate (n + 1) (some (Frame.data chunk)) ++ [some (.data chunk)] =
        List.replicate (n + 2) (some (.data chunk)) := List.replicate_succ'.symm
    have hbytes : (List.replicate (n + 1) chunk).flatten ++ chunk =
      (List.replicate (n + 2) chunk).flatten := by
      rw [List.replicate_succ' (n := n + 1), List.flatten_append, List.flatten_singleton]
    rw [taken, run_append, ih, Option.bind_some]
    simp [run, guarded, Relay.answersInTime, Relay.step, Relay.stepUp, Relay.put, Relay.start,
      Relay.noteAnswer,
      Relay.handle, Up.write, takenUp, haccepts, hne, hpos, hread, hbytes]

theorem run_blocks {part : ℕ} (hpart : 0 < part) (hlt : part < chunk.length) (n : ℕ) :
    run (guarded (Relay.step 60000) Relay.answersInTime) (takenUp chunk n) (blocks chunk part) =
      some (blocked chunk n part) := by
  have hne : chunk ≠ [] := List.length_pos_iff.mp (hpart.trans hlt)
  have hread : List.replicate (n + 1) (some (Frame.data chunk)) ++ [some (.data chunk)] =
      List.replicate (n + 2) (some (.data chunk)) := List.replicate_succ'.symm
  have hacc := accepts_chunks chunk (n + 1) [] (fun f hf => absurd hf List.not_mem_nil) (.data chunk)
  rw [List.append_nil] at hacc
  simp [run, blocks, guarded, Relay.answersInTime, Relay.step, Relay.stepUp, Relay.put, Relay.start,
    Relay.noteAnswer, Relay.handle, Up.write, takenUp, blocked, hne, hpart, hlt.le,
      Nat.not_le.mpr hlt, hread, hacc]

/-- A relay that has written just now, whose peer has answered all of its keepalives and ended nothing. -/
structure Answered (s : Relay (List (ℕ × ℕ))) : Prop where
  running : s.returned = none
  writer : ∃ deadline, s.writer = .selecting deadline
  wrote : s.lastWrite = s.now
  openEnds : s.peerFin = false ∧ s.finSent = false
  answered : ∀ x ∈ s.keepalives, x.1 ∈ s.answered

/-- Its next keepalive, answered too, with the ACK left unread. -/
def nextAnswered (s : Relay (List (ℕ × ℕ))) : Relay (List (ℕ × ℕ)) :=
  { s with
    now := s.now + keepaliveInterval
    stream := s.stream ++ [some (.keepaliveAck (s.counter + 1))]
    writer := .selecting ((oldestOutstandingAgeMs (sent s.tracker (s.counter + 1) (s.now + keepaliveInterval))
      (s.now + keepaliveInterval)).map (fun age => s.now + keepaliveInterval + (keepaliveDeadAfter - age)))
    wire := s.wire ++ [.keepalive (s.counter + 1)]
    tracker := sent s.tracker (s.counter + 1) (s.now + keepaliveInterval)
    counter := s.counter + 1
    lastWrite := s.now + keepaliveInterval
    keepalives := s.keepalives ++ [(s.counter + 1, s.now + keepaliveInterval)]
    answered := s.answered ++ [s.counter + 1] }

theorem Answered.ticks {s : Relay (List (ℕ × ℕ))} (h : Answered s) (ms : ℕ) :
    guarded (Relay.step 60000) Relay.answersInTime s (.tick ms) = some { s with now := s.now + ms } := by
  have hguard : s.answersInTime (.tick ms) = true := by
    unfold Relay.answersInTime
    rw [List.all_eq_true]
    intro x hx
    rw [Bool.or_eq_true]
    exact .inr (List.contains_iff_mem.mpr (h.answered x hx))
  rw [guarded, if_pos hguard]
  simp only [Relay.step, h.running]

theorem Answered.run_next {s : Relay (List (ℕ × ℕ))} (h : Answered s) {c : ℕ} (hc : s.counter + 1 = c)
    (hacc : accepts s.put (some (.keepaliveAck c)) = true) :
    run (guarded (Relay.step 60000) Relay.answersInTime) s (answeredKeepalive c) = some (nextAnswered s) := by
  subst hc
  obtain ⟨hpeer, hown⟩ := h.openEnds
  obtain ⟨deadline, hwriter⟩ := h.writer
  have hdue : guarded (Relay.step 60000) Relay.answersInTime { s with now := s.now + keepaliveInterval }
      .keepaliveDue = some { s with
        now := s.now + keepaliveInterval
        counter := s.counter + 1
        writer := .keepaliving } := by
    simp only [guarded, Relay.answersInTime, if_true, Relay.step, h.running, Relay.stepUp, Relay.stepDown,
      Relay.stepWriter, hwriter, h.wrote, Nat.le_refl, Option.none_or]
  have hwrites : guarded (Relay.step 60000) Relay.answersInTime { s with
        now := s.now + keepaliveInterval
        counter := s.counter + 1
        writer := .keepaliving } .writes =
      some { nextAnswered s with stream := s.stream, answered := s.answered } := by
    simp only [guarded, Relay.answersInTime, if_true, Relay.step, h.running, Relay.stepUp, Relay.stepDown,
      Relay.stepWriter, Option.none_or, Relay.keptAlive, Relay.loopTop, hpeer, hown, Bool.and_self,
      Bool.false_eq_true, if_false, nextAnswered]
  have hputs : guarded (Relay.step 60000) Relay.answersInTime
      { nextAnswered s with stream := s.stream, answered := s.answered }
      (.edgePuts (some (.keepaliveAck (s.counter + 1)))) = some (nextAnswered s) := by
    have hle : 1 ≤ s.counter + 1 := Nat.succ_pos _
    unfold Relay.put at hacc
    simp only [guarded, Relay.answersInTime, if_true, Relay.step, nextAnswered, h.running, Relay.put, hacc,
      Relay.noteAnswer, hle, Nat.le_refl, and_self]
  simp only [answeredKeepalive, run, h.ticks, hdue, hwrites, hputs, Option.bind_some]

theorem Answered.next {s : Relay (List (ℕ × ℕ))} (h : Answered s) : Answered (nextAnswered s) where
  running := h.running
  writer := ⟨_, rfl⟩
  wrote := rfl
  openEnds := h.openEnds
  answered := by
    intro x hx
    rcases List.mem_append.mp hx with hx | hx
    · exact List.mem_append_left _ (h.answered x hx)
    · rw [List.mem_singleton.mp hx]
      exact List.mem_append_right _ (List.mem_singleton_self _)

/-- At the deadline the relay ends with the verdict. -/
theorem Answered.run_verdict {s : Relay (List (ℕ × ℕ))} (h : Answered s) {deadline age ms : ℕ}
    (hw : s.writer = .selecting (some deadline)) (hd : deadline ≤ s.now + ms) (hq : s.queue = [])
    (hage : oldestOutstandingAgeMs s.tracker (s.now + ms) = some age) (hdead : keepaliveDeadAfter ≤ age) :
    ∃ t, run (guarded (Relay.step 60000) Relay.answersInTime) s [.tick ms, .deadlineDue, .judges] = some t ∧
      t.returned = some (.error (.peerDead age)) := by
  have hdue : guarded (Relay.step 60000) Relay.answersInTime { s with now := s.now + ms } .deadlineDue =
      some { s with now := s.now + ms, writer := .draining } := by
    simp only [guarded, Relay.answersInTime, if_true, Relay.step, h.running, Relay.stepUp, Relay.stepDown,
      Relay.stepWriter, hw, hd, Option.none_or]
  have hjudges : guarded (Relay.step 60000) Relay.answersInTime
      { s with now := s.now + ms, writer := .draining } .judges = some { s with
        now := s.now + ms
        writer := .draining
        returned := some (.error (.peerDead age)) } := by
    simp only [guarded, Relay.answersInTime, if_true, Relay.step, h.running, Relay.stepUp, Relay.stepDown,
      Relay.stepWriter, hq, Relay.judge, hage, hdead, Option.none_or]
  refine ⟨{ s with
    now := s.now + ms
    writer := .draining
    returned := some (.error (.peerDead age)) }, ?_, rfl⟩
  simp only [run, h.ticks, hdue, hjudges, Option.bind_some]

/-- Three answered keepalives and the verdict, behind a blocked write. -/
theorem run_unread (n part : ℕ) :
    ∃ t, run (guarded (Relay.step 60000) Relay.answersInTime) (blocked chunk n part)
      (answeredKeepalive 1 ++ (answeredKeepalive 2 ++ (answeredKeepalive 3 ++
        [.tick keepaliveInterval, .deadlineDue, .judges]))) = some t ∧
      t.returned = some (.error (.peerDead keepaliveDeadAfter)) := by
  have h0 : Answered (blocked chunk n part) := ⟨rfl, ⟨none, rfl⟩, rfl, ⟨rfl, rfl⟩, fun x hx => by cases hx⟩
  have hacc (acks : List (Option Frame)) (hacks : ∀ f ∈ acks, ∃ c, f = some (.keepaliveAck c)) (c : ℕ) :=
    accepts_chunks chunk (n + 2) acks hacks (.keepaliveAck c)
  have h1 := h0.run_next (c := 1) rfl (hacc [] (by simp) 1)
  have h2 := h0.next.run_next (c := 2) rfl (hacc [some (.keepaliveAck 1)] (by simp) 2)
  have h3 := h0.next.next.run_next (c := 3) rfl
    (hacc [some (.keepaliveAck 1), some (.keepaliveAck 2)] (by simp) 3)
  have hwriter : (nextAnswered (nextAnswered (nextAnswered (blocked chunk n part)))).writer =
      .selecting (some 32000) := by
    simp [nextAnswered, blocked, Relay.start, sent, oldestOutstandingAgeMs, new, keepaliveInterval,
      keepaliveDeadAfter]
  have hnow : (nextAnswered (nextAnswered (nextAnswered (blocked chunk n part)))).now = 24000 := by
    simp [nextAnswered, blocked, Relay.start, keepaliveInterval]
  have hage : oldestOutstandingAgeMs
    (nextAnswered (nextAnswered (nextAnswered (blocked chunk n part)))).tracker
      (24000 + keepaliveInterval) = some keepaliveDeadAfter := by
    simp [nextAnswered, blocked, Relay.start, sent, oldestOutstandingAgeMs, new, keepaliveInterval,
      keepaliveDeadAfter]
  obtain ⟨t, ht, hret⟩ := h0.next.next.next.run_verdict hwriter (by rw [hnow]; decide) rfl (hnow ▸ hage)
    (Nat.le_refl _)
  refine ⟨t, ?_, hret⟩
  rw [run_append, h1, Option.bind_some, run_append, h2, Option.bind_some, run_append, h3, Option.bind_some, ht]

end

/-- The events of a Client that sends more than the Origin and the socket buffers in front of it take. -/
def stalledOrigin (chunk : Bytes) (n part : ℕ) : List Event :=
  taken chunk n ++ (blocks chunk part ++
    (answeredKeepalive 1 ++ (answeredKeepalive 2 ++ (answeredKeepalive 3 ++
    [.tick keepaliveInterval, .deadlineDue, .judges]))))

/-- Sixteen mebibytes are taken and a part of the next chunk, and then no byte: the ACKs stay unread behind
the blocked write, and the relay ends with the verdict. -/
theorem stalled_origin_kills_peer :
    ∃ s : Relay (List (ℕ × ℕ)),
      run (guarded (Relay.step 60000) Relay.answersInTime) Relay.start
        (stalledOrigin (List.replicate 16384 0) 1023 5000) = some s ∧
      s.returned = some (.error (.peerDead 24000)) := by
  have hlt : 5000 < (List.replicate 16384 (0 : UInt8)).length := by
    rw [List.length_replicate]
    decide
  have hne : List.replicate 16384 (0 : UInt8) ≠ [] := List.length_pos_iff.mp (Nat.zero_lt_of_lt hlt)
  obtain ⟨s, hs, hret⟩ := @run_unread (List.replicate 16384 0) 1023 5000
  refine ⟨s, ?_, hret⟩
  rw [stalledOrigin, run_append, run_taken hne, Option.bind_some, run_append, run_blocks (by decide) hlt,
    Option.bind_some, hs]

end

end CtAgent.Serve.Framed
