import CtAgent.Serve.FramedEnd

/-! What the framed relay does in every run: the bytes of both directions, the FINs, and that the relay's
own steps bring it to its end. -/
namespace CtAgent.Serve.Framed

open CtAgent.Lib KeepaliveTracker

/-- The steps that wait for nobody: no bytes of the edge or the Origin, no timer and no failure. -/
def Event.own : Event → Bool
  | .upReads | .originHalfCloses | .upSends | .downLearns | .downSends | .writerReceives
  | .writerFindsClosed | .writes | .drains | .judges | .shutsDown => true
  | _ => false

def Up.weight : Up → ℕ
  | .halfClosing _ => 6
  | .sending _ _ => 4
  | _ => 0

def Down.weight : Down → ℕ
  | .waiting => 5
  | .sending _ => 4
  | _ => 0

def Writer.weight : Writer → ℕ
  | .selecting _ => 2
  | .applying _ false => 4
  | .applying _ true => 5
  | .keepaliving => 3
  | .finning => 3
  | .draining => 3
  | .closing => 1

section
variable {κ : Type}

/-- A bound on the relay's own steps from here. -/
def Relay.owed (s : Relay κ) : ℕ :=
  if s.returned.isSome then 0
  else 8 * s.stream.length + s.up.weight + s.down.weight + 3 * s.queue.length + s.writer.weight

theorem Writer.weight_pos (w : Writer) : 0 < w.weight := by
  cases w with
  | applying ev drain => cases drain <;> simp [Writer.weight]
  | _ => simp [Writer.weight]

theorem Relay.owed_running {s : Relay κ} (hr : s.returned = none) : s.owed =
    8 * s.stream.length + s.up.weight + s.down.weight + 3 * s.queue.length + s.writer.weight := by
  simp [Relay.owed, hr]

theorem Relay.owed_le (s : Relay κ) : s.owed ≤
    8 * s.stream.length + s.up.weight + s.down.weight + 3 * s.queue.length + s.writer.weight := by
  unfold Relay.owed
  split_ifs
  · exact Nat.zero_le _
  · exact le_rfl

theorem Relay.owed_returned {s : Relay κ} (hr : s.returned.isSome = true) : s.owed = 0 := by
  simp [Relay.owed, hr]

theorem Relay.handle_weight (s : Relay κ) (hu : s.up = .reading) (f : Option Frame) :
    (s.handle f).up.weight ≤ 6 := by
  unfold Relay.handle
  split
  · split_ifs <;> simp [hu, Up.weight]
  · split_ifs <;> simp [hu, Up.weight]
  · simp [Up.weight]
  · simp only [Relay.peerEnds]
    split_ifs <;> simp [Up.weight]
  · simp only [Relay.peerEnds]
    split_ifs <;> simp [Up.weight]

theorem UpStep.owed_lt {s t : Relay κ} {e : Event} (hr : s.returned = none) (he : e.own = true)
    (hs : UpStep s e t) : t.owed < s.owed := by
  have hpos := s.writer.weight_pos
  rw [Relay.owed_running hr]
  cases hs with
  | reads f rest hu hst =>
    have hle := Relay.owed_le (Relay.handle { s with read := s.read ++ [f], stream := rest } f)
    have hw := Relay.handle_weight { s with read := s.read ++ [f], stream := rest } hu f
    rw [Relay.handle_eq] at hle hw ⊢
    simp only [hst, List.length_cons] at hle hw ⊢
    omega
  | halfCloses last hu =>
    refine lt_of_le_of_lt (Relay.owed_le _) ?_
    simp only [hu, Up.weight]
    omega
  | sends ev hu hq =>
    refine lt_of_le_of_lt (Relay.owed_le _) ?_
    simp only [hu, Up.weight, List.length_append, List.length_singleton]
    omega
  | sendsLast ev hu hq =>
    refine lt_of_le_of_lt (Relay.owed_le _) ?_
    simp only [hu, Up.weight, List.length_append, List.length_singleton]
    omega
  | fails e text hu =>
    rw [Relay.owed_returned rfl]
    omega
  | dials d hu hd => cases he
  | takes n rest hu hn hle => cases he

theorem DownStep.owed_lt {s t : Relay κ} {e : Event} (hr : s.returned = none) (he : e.own = true)
    (hs : DownStep s e t) : t.owed < s.owed := by
  rw [Relay.owed_running hr]
  cases hs with
  | dialed hd ho =>
    refine lt_of_le_of_lt (Relay.owed_le _) ?_
    simp only [hd, Down.weight]
    omega
  | dropped hd ho =>
    refine lt_of_le_of_lt (Relay.owed_le _) ?_
    simp only [hd, Down.weight]
    omega
  | sends ev hd hq =>
    have hafter : (Down.after ev).weight = 0 := by cases ev <;> rfl
    have hin : s.down.weight = 4 := by rw [hd]; rfl
    refine lt_of_le_of_lt (Relay.owed_le _) ?_
    simp only [hin, hafter, List.length_append, List.length_singleton]
    omega
  | gives bytes hd hne hle => cases he
  | ends hd => cases he
  | fails text hd => cases he

section
variable [KeepaliveTracker κ]

/-- At the top of the loop two steps are left at most, with the rest as it was. -/
theorem Relay.loopTop_owed (s : Relay κ) : s.loopTop.owed ≤
    8 * s.stream.length + s.up.weight + s.down.weight + 3 * s.queue.length + 2 := by
  obtain ⟨w, hlt, ⟨rfl, -⟩ | ⟨⟨deadline, rfl⟩, -⟩⟩ := s.loopTop_eq
  · rw [hlt]
    refine (Relay.owed_le _).trans ?_
    simp only [Writer.weight]
    omega
  · rw [hlt]
    exact Relay.owed_le _

theorem WriterStep.owed_lt {idleBound : ℕ} {s t : Relay κ} {e : Event} (hr : s.returned = none)
    (he : e.own = true) (hs : WriterStep idleBound s e t) : t.owed < s.owed := by
  have hpos := s.writer.weight_pos
  have happly (ev : EdgeWrite) : (s.apply ev).stream = s.stream ∧ (s.apply ev).up = s.up ∧
      (s.apply ev).down = s.down ∧ (s.apply ev).queue = s.queue := by
    cases ev <;> exact ⟨rfl, rfl, rfl, rfl⟩
  rw [Relay.owed_running hr]
  cases hs with
  | receives deadline ev rest hw hq =>
    refine lt_of_le_of_lt (Relay.owed_le _) ?_
    simp only [hw, hq, Writer.weight, List.length_cons]
    omega
  | drains ev rest hw hq =>
    refine lt_of_le_of_lt (Relay.owed_le _) ?_
    simp only [hw, hq, Writer.weight, List.length_cons]
    omega
  | findsClosed deadline hw hq hu hd =>
    refine lt_of_le_of_lt (Relay.owed_le _) ?_
    simp only [hw, Writer.weight]
    omega
  | applies ev hw =>
    obtain ⟨h1, h2, h3, h4⟩ := happly ev
    refine lt_of_le_of_lt (Relay.loopTop_owed _) ?_
    simp only [h1, h2, h3, h4, hw, Writer.weight]
    omega
  | drained ev hw =>
    obtain ⟨h1, h2, h3, h4⟩ := happly ev
    refine lt_of_le_of_lt (Relay.owed_le _) ?_
    simp only [h1, h2, h3, h4, hw, Writer.weight]
    omega
  | keepsAlive hw =>
    refine lt_of_le_of_lt (Relay.loopTop_owed _) ?_
    simp only [Relay.keptAlive, hw, Writer.weight]
    omega
  | fins hw =>
    refine lt_of_le_of_lt (Relay.loopTop_owed _) ?_
    simp only [Relay.idleFinned, hw, Writer.weight]
    omega
  | judges hw hq =>
    rcases s.judge_cases with hj | ⟨age, hj, -⟩
    · rw [hj]
      refine lt_of_le_of_lt (Relay.loopTop_owed _) ?_
      simp only [hw, Writer.weight]
      omega
    · rw [hj, Relay.owed_returned rfl]
      omega
  | shutsDown hw =>
    rw [Relay.owed_returned rfl]
    omega
  | keepaliveDue deadline hw ht => cases he
  | idleDue deadline hw hp hf ht => cases he
  | deadlineDue d hw ht => cases he
  | fails text => cases he
  | shutdownFails text hw => cases he

theorem Relay.own_owed_lt {idleBound : ℕ} {s t : Relay κ} {e : Event} (he : e.own = true)
    (hs : s.step idleBound e = some t) : t.owed < s.owed := by
  obtain ⟨hr, ⟨ms, rfl, rfl⟩ | ⟨f, rfl, -, rfl⟩ | hs | hs | hs⟩ := Relay.step_cases hs
  · cases he
  · cases he
  · exact hs.owed_lt hr he
  · exact hs.owed_lt hr he
  · exact hs.owed_lt hr he

/-- The peer has ended without a byte for the Origin. -/
def Relay.Unspoken (s : Relay κ) : Prop := s.Ended ∧ s.dials = 0

/-- Both FINs have passed. -/
def Relay.BothFins (s : Relay κ) : Prop := s.finSent = true ∧ s.peerFin = true

theorem Relay.BothFins.step {idleBound : ℕ} {s t : Relay κ} {e : Event} (h : s.BothFins)
    (hs : s.step idleBound e = some t) : t.BothFins := by
  have happly (ev : EdgeWrite) : (s.apply ev).BothFins := by
    cases ev <;> simp [Relay.BothFins, Relay.apply, h.1, h.2]
  have htop {u : Relay κ} (hu : u.BothFins) : u.loopTop.BothFins := by
    obtain ⟨w, hw, -⟩ := u.loopTop_eq
    rw [hw]
    exact hu
  obtain ⟨-, ⟨ms, rfl, rfl⟩ | ⟨f, rfl, -, rfl⟩ | hs | hs | hs⟩ := Relay.step_cases hs
  · exact h
  · exact h
  · exact ⟨hs.sameWriter.finSent.trans h.1, hs.sameWriter.peerFin.trans h.2⟩
  · exact ⟨hs.sameWriter.finSent.trans h.1, hs.sameWriter.peerFin.trans h.2⟩
  · cases hs with
    | applies ev hw => exact htop (happly ev)
    | drained ev hw => exact happly ev
    | keepsAlive hw => exact htop (u := s.keptAlive) h
    | fins hw => exact htop (u := s.idleFinned) ⟨rfl, h.2⟩
    | judges hw hq =>
      rcases s.judge_cases with hj | ⟨age, hj, -⟩
      · rw [hj]
        exact htop h
      · rw [hj]
        exact h
    | _ => exact h

theorem peerFin_step {idleBound : ℕ} {s t : Relay κ} {e : Event} (h : s.peerFin = true)
    (hs : s.step idleBound e = some t) : t.peerFin = true := by
  obtain ⟨-, ⟨ms, rfl, rfl⟩ | ⟨f, rfl, -, rfl⟩ | hs | hs | hs⟩ := Relay.step_cases hs
  · exact h
  · exact h
  · exact hs.sameWriter.peerFin.trans h
  · exact hs.sameWriter.peerFin.trans h
  · rcases hs.work with ⟨ev, drain, w, hw, hin, rfl⟩ | ⟨-, hp⟩
    · exact (s.apply_peerFin ev).mpr (.inl h)
    · rw [hp]
      exact h

theorem Relay.Unspoken.step {idleBound : ℕ} {s t : Relay κ} {e : Event} (h : s.Unspoken) (hi : FramedInv s)
    (hs : s.step idleBound e = some t) : t.Unspoken := by
  obtain ⟨-, ⟨ms, rfl, rfl⟩ | ⟨f, rfl, -, rfl⟩ | hs | hs | hs⟩ := Relay.step_cases hs
  · exact h
  · exact h
  · cases hs with
    | reads f rest hu hst =>
      have hended : some .fin ∈ s.read ++ [f] ∨ none ∈ s.read ++ [f] := by
        rcases h.1 with he | he
        · exact .inl (List.mem_append_left _ he)
        · exact .inr (List.mem_append_left _ he)
      -- DATA cannot follow, so that nothing is dialed
      have hdials : (Relay.handle { s with read := s.read ++ [f], stream := rest } f).dials = 0 := by
        unfold Relay.handle
        split
        · exact absurd h.1 ((hi.up.not_ended hst).2 _ rfl)
        · split_ifs <;> exact h.2
        · exact h.2
        · exact h.2
        · exact h.2
      rw [Relay.handle_eq] at hdials ⊢
      exact ⟨hended, hdials⟩
    | _ => exact h
  · cases hs <;> exact h
  · have hsame := hs.sameHalves
    exact ⟨by rw [Relay.Ended, hsame.read]; exact h.1, hsame.dials.trans h.2⟩

/-- While a FIN or the shutdown is owed, the relay waits for nobody. -/
theorem FramedInv.enabled {s : Relay κ} (h : FramedInv s) (idleBound : ℕ) (hr : s.returned = none)
    (hend : s.Unspoken ∨ s.BothFins) : ∃ e, e.own = true ∧ (s.step idleBound e).isSome = true := by
  cases hw : s.writer with
  | applying ev drain =>
    refine ⟨.writes, rfl, ?_⟩
    cases drain <;> simp [Relay.step, hr, Relay.stepUp, Relay.stepDown, Relay.stepWriter, hw]
  | keepaliving =>
    exact ⟨.writes, rfl, by simp [Relay.step, hr, Relay.stepUp, Relay.stepDown, Relay.stepWriter, hw]⟩
  | finning =>
    exact ⟨.writes, rfl, by simp [Relay.step, hr, Relay.stepUp, Relay.stepDown, Relay.stepWriter, hw]⟩
  | draining =>
    cases hq : s.queue with
    | nil =>
      exact ⟨.judges, rfl, by simp [Relay.step, hr, Relay.stepUp, Relay.stepDown, Relay.stepWriter, hw, hq]⟩
    | cons ev rest =>
      exact ⟨.drains, rfl, by simp [Relay.step, hr, Relay.stepUp, Relay.stepDown, Relay.stepWriter, hw, hq]⟩
  | closing =>
    exact ⟨.shutsDown, rfl, by simp [Relay.step, hr, Relay.stepUp, Relay.stepDown, Relay.stepWriter, hw]⟩
  | selecting deadline =>
    have hboth := h.writer.running (.inl ⟨deadline, hw⟩)
    obtain ⟨hended, hdials⟩ := hend.resolve_right hboth
    cases hq : s.queue with
    | cons ev rest =>
      exact ⟨.writerReceives, rfl, by
        simp [Relay.step, hr, Relay.stepUp, Relay.stepDown, Relay.stepWriter, hw, hq]⟩
    | nil =>
      have hroom : s.queue.length < framedWriteQueue := by simp [hq, framedWriteQueue]
      have hwork : s.work = [] := by simp [Relay.work, hw, hq, Writer.inHand]
      have hsends {ev : EdgeWrite} {last : Bool} (hu : s.up = .sending ev last) :
          (s.step idleBound .upSends).isSome = true := by
        cases last <;> simp [Relay.step, hr, Relay.stepUp, hu, hroom]
      rcases h.path.owed hended with hp | hp | ⟨last, hl | hl⟩
      · -- the peer's FIN is recorded, so that this side's own is missing
        cases hd : s.down with
        | waiting =>
          rcases h.up.dropped hended hdials with ho | hu
          · exact ⟨.downLearns, rfl, by simp [Relay.step, hr, Relay.stepUp, Relay.stepDown, hd, ho]⟩
          · exact ⟨.upSends, rfl, hsends hu⟩
        | reading => exact absurd (h.handed (.inl hd)) (h.up.undialed hdials).2.1
        | sending ev =>
          exact ⟨.downSends, rfl, by simp [Relay.step, hr, Relay.stepUp, Relay.stepDown, hd, hroom]⟩
        | done =>
          rcases h.down.finished (.inl hd) with ⟨pre, hpre, -⟩ | ⟨-, hcause⟩
          · simp [Relay.downWork, hwork, hd, Down.inHand] at hpre
          · exact absurd ⟨h.down.cause.mpr (by simp [hcause]), hp⟩ hboth
      · simp [hwork] at hp
      · exact ⟨.originHalfCloses, rfl, by simp [Relay.step, hr, Relay.stepUp, hl]⟩
      · exact ⟨.upSends, rfl, hsends hl⟩

/-- How the relay can end while it winds down: well, by a failure at one of its two ends, or by a verdict
that was due before the peer's FIN was recorded. -/
theorem FramedInv.winding_step {idleBound : ℕ} {s t : Relay κ} {e : Event} (h : FramedInv s)
    (hend : s.Unspoken ∨ s.BothFins) (hs : s.step idleBound e = some t) :
    t.returned = none ∨ t.returned = some (.ok ()) ∨
      (s.peerFin = false ∧ ∃ age, t.returned = some (.error (.peerDead age))) ∨
      ∃ text, (e = .writeFails text ∨ e = .shutdownFails text ∨ e = .originReadFails text) ∧
        t.returned = some (.error (.other text)) := by
  have hended : s.Ended := by
    rcases hend with hend | hend
    · exact hend.1
    · exact h.path.recorded (.inl hend.2)
  obtain ⟨hr, ⟨ms, rfl, rfl⟩ | ⟨f, rfl, -, rfl⟩ | hs | hs | hs⟩ := Relay.step_cases hs
  · exact .inl hr
  · exact .inl hr
  · rcases hs.returned with hret | ⟨⟨d, hu⟩ | ⟨d, hu⟩, -⟩
    · exact .inl (hret.trans hr)
    · -- behind the peer's FIN there is nothing to dial or to write for
      have hin := h.up.ended hended
      rw [hu] at hin
      exact absurd hin (h.up.nonempty d (.inl hu))
    · have hin := h.up.ended hended
      rw [hu] at hin
      exact absurd hin (h.up.nonempty d (.inr hu))
  · rcases hs.returned with hret | ⟨text, rfl, hret⟩
    · exact .inl (hret.trans hr)
    · exact .inr (.inr (.inr ⟨text, .inr (.inr rfl), hret⟩))
  · rcases hs.returned with hret | ⟨text, he, hret⟩ | ⟨-, -, hret⟩ | ⟨-, -, -, age, hret, x, hx, -⟩
    · exact .inl (hret.trans hr)
    · refine .inr (.inr (.inr ⟨text, ?_, hret⟩))
      rcases he with rfl | rfl
      · exact .inl rfl
      · exact .inr (.inl rfl)
    · exact .inr (.inl hret)
    · refine .inr (.inr (.inl ⟨?_, age, hret⟩))
      by_contra hp
      rw [h.writer.untracked (by simpa using hp)] at hx
      cases hx

/-- Own steps, as many as there are, end the relay. -/
def Relay.Finishes (idleBound : ℕ) (s : Relay κ) (Q : Relay κ → Prop) : Prop :=
  ∀ es t, (∀ e ∈ es, e.own = true) → run (Relay.step idleBound) s es = some t →
    es.length ≤ s.owed ∧ ((∀ e, e.own = true → t.step idleBound e = none) → Q t)

theorem Relay.own_run_length {idleBound : ℕ} {es : List Event} {s t : Relay κ}
    (hes : ∀ e ∈ es, e.own = true) (hr : run (Relay.step idleBound) s es = some t) :
    es.length + t.owed ≤ s.owed := by
  induction es generalizing s with
  | nil =>
    cases hr
    simp
  | cons e es ih =>
    obtain ⟨u, hu, hr⟩ := (run_cons _ _ _ _ _).mp hr
    have hrest := ih (fun e' he' => hes e' (List.mem_cons_of_mem e he')) hr
    have hlt := Relay.own_owed_lt (hes e (List.mem_cons_self ..)) hu
    simp only [List.length_cons]
    omega

/-- What own steps can lead to. -/
structure Winding (verdict : Prop) (s : Relay κ) : Prop where
  inv : FramedInv s
  ends : s.Unspoken ∨ s.BothFins
  peerFin : ¬ verdict → s.peerFin = true
  returned : s.returned = none ∨ s.returned = some (.ok ()) ∨
    (verdict ∧ ∃ age, s.returned = some (.error (.peerDead age)))

theorem Winding.step {idleBound : ℕ} {verdict : Prop} {s t : Relay κ} {e : Event} (h : Winding verdict s)
    (he : e.own = true) (hs : s.step idleBound e = some t) : Winding verdict t := by
  refine ⟨h.inv.step hs, ?_, fun hv => peerFin_step (h.peerFin hv) hs, ?_⟩
  · rcases h.ends with hend | hend
    · exact .inl (hend.step h.inv hs)
    · exact .inr (hend.step hs)
  · rcases h.inv.winding_step h.ends hs with hret | hret | ⟨hp, hret⟩ | ⟨text, rfl | rfl | rfl, -⟩
    · exact .inl hret
    · exact .inr (.inl hret)
    · refine .inr (.inr ⟨?_, hret⟩)
      by_contra hv
      simp [h.peerFin hv] at hp
    · cases he
    · cases he
    · cases he

theorem Winding.finishes {idleBound : ℕ} {verdict : Prop} {s : Relay κ} (h : Winding verdict s) :
    s.Finishes idleBound (fun t => (t.BothFins ∧ t.returned = some (.ok ())) ∨
      (verdict ∧ ∃ age, t.returned = some (.error (.peerDead age)))) := by
  intro es t hes hr
  refine ⟨(Nat.le_add_right _ _).trans (Relay.own_run_length hes hr), fun hstuck => ?_⟩
  have ht : Winding verdict t :=
    run_invariant_of_mem (fun _ _ _ he hi hs => Winding.step hi he hs) hes h hr
  rcases ht.returned with hret | hret | hret
  · obtain ⟨e, he, hsome⟩ := ht.inv.enabled idleBound hret ht.ends
    rw [hstuck e he] at hsome
    cases hsome
  · exact .inl ⟨ht.inv.writer.closing (ht.inv.writer.ok hret), hret⟩
  · exact .inr hret

/-- The Origin's dial, the bytes of both directions and the FINs in every run. A peer that ends without a
byte for the Origin is sent a FIN by the relay's own steps, unless it is judged dead for a keepalive from
before; behind both FINs these steps end in `Ok`, and only a failing write, shutdown or read of the Origin
comes between. -/
theorem framed_relay_integrity (idleBound : ℕ) (es : List Event) (s : Relay κ)
    (h : run (Relay.step idleBound) Relay.start es = some s) :
    (s.dials ≤ 1 ∧ (s.dials = 1 → ∃ d, d ≠ [] ∧ some (.data d) ∈ s.read)) ∧
    (s.toOrigin <+: payloads s.put ∧ (s.peerFin = true → s.toOrigin = payloads s.put)) ∧
    wireData s.wire <+: s.fromOrigin ∧
    (∀ pre post, s.wire = pre ++ .fin :: post → .fin ∉ pre ∧ .fin ∉ post ∧ (∀ d, .data d ∉ post) ∧
      (s.finCause = some .queued → wireData pre = s.fromOrigin)) ∧
    (s.returned = none → s.Ended → (∀ d, some (.data d) ∈ s.read → d = []) →
      s.Finishes idleBound (fun t => (t.BothFins ∧ t.returned = some (.ok ())) ∨
        (s.peerFin = false ∧ ∃ age, t.returned = some (.error (.peerDead age))))) ∧
    (s.returned = none → s.BothFins →
      s.Finishes idleBound (fun t => t.returned = some (.ok ())) ∧
      ∀ e t err, s.step idleBound e = some t → t.returned = some (.error err) → ∃ text, err = .other text ∧
        (e = .writeFails text ∨ e = .shutdownFails text ∨ e = .originReadFails text)) ∧
    (s.returned = some (.ok ()) → s.BothFins ∧ s.writer = .closing) := by
  have hi : FramedInv s := FramedInv.run h
  refine ⟨⟨hi.up.once, hi.up.spoke⟩, ⟨hi.up.toOrigin, ?_⟩, ?_, fun _ _ => hi.down.fin_last, ?_, ?_, ?_⟩
  · intro hp
    exact hi.up.toOrigin_all (hi.path.recorded (.inl hp))
  · rw [← hi.down.relayed]
    exact List.prefix_append _ _
  · intro hr hended hempty
    have hdials : s.dials = 0 := by
      by_contra hne
      have hle := hi.up.once
      obtain ⟨d, hd, hmem⟩ := hi.up.spoke (by omega)
      exact hd (hempty d hmem)
    have hw : Winding (s.peerFin = false) s :=
      ⟨hi, .inl ⟨hended, hdials⟩, fun hv => by simpa using hv, .inl hr⟩
    exact hw.finishes
  · intro hr hboth
    constructor
    · have hw : Winding False s := ⟨hi, .inr hboth, fun _ => hboth.2, .inl hr⟩
      intro es t hes hrun
      obtain ⟨hlen, hend⟩ := hw.finishes es t hes hrun
      refine ⟨hlen, fun hstuck => ?_⟩
      rcases hend hstuck with ⟨-, hok⟩ | ⟨hf, -⟩
      · exact hok
      · exact hf.elim
    · intro e t err hs herr
      rcases hi.winding_step (.inr hboth) hs with hret | hret | ⟨hp, -⟩ | ⟨text, he, hret⟩
      · cases hret.symm.trans herr
      · cases hret.symm.trans herr
      · simp [hboth.2] at hp
      · cases hret.symm.trans herr
        exact ⟨text, rfl, he⟩
  · intro hok
    have hclosing := hi.writer.ok hok
    exact ⟨hi.writer.closing hclosing, hclosing⟩

end

/-- A request, its answer, the Client's FIN and the Origin's end. -/
def exchange : List Event :=
  [.edgePuts (some (.data [])), .upReads, .edgePuts (some (.data [1, 2])), .upReads, .dialEnds none,
    .originTakes 1, .originTakes 1, .downLearns, .originGives [7], .downSends, .writerReceives, .writes,
    .edgePuts (some .fin), .upReads, .originHalfCloses, .upSends, .writerReceives, .writes, .originEnds,
    .downSends, .writerReceives, .writes, .shutsDown]

theorem framed_relay_integrity_sample :
    ∃ s : Relay (List (ℕ × ℕ)), run (Relay.step 60000) Relay.start exchange = some s ∧ s.dials = 1 ∧
      s.toOrigin = payloads s.put ∧ s.wire = [.data [7], .fin] ∧ s.returned = some (.ok ()) := by
  have hr : (run (Relay.step 60000) (Relay.start : Relay (List (ℕ × ℕ))) exchange).map
      (fun s => (s.dials, s.peerFin, s.wire, s.returned)) =
      some (1, true, [.data [7], .fin], some (.ok ())) := by decide
  obtain ⟨s, hs, heq⟩ := Option.map_eq_some_iff.mp hr
  simp only [Prod.mk.injEq] at heq
  obtain ⟨hdials, hfin, hwire, hret⟩ := heq
  have hall := (framed_relay_integrity 60000 exchange s hs).2.1.2 hfin
  exact ⟨s, hs, hdials, hall, hwire, hret⟩

/-- The idle bound sends this side's FIN, and the Origin's reset comes before the shutdown is through. -/
def resetWhileClosing : List Event :=
  [.edgePuts (some (.data [1])), .upReads, .dialEnds none, .originTakes 1, .downLearns, .edgePuts (some .fin),
    .upReads, .originHalfCloses, .upSends, .writerReceives, .writes, .tick 8000, .keepaliveDue, .writes,
    .tick 8000, .keepaliveDue, .writes, .tick 4000, .idleDue, .writes,
    .originReadFails "Connection reset by peer (os error 104)"]

/-- Both FINs have passed, and the relay returns the error. -/
theorem reset_ends_the_closing :
    ∃ s : Relay (List (ℕ × ℕ)), run (Relay.step 20000) Relay.start resetWhileClosing = some s ∧
      s.BothFins ∧ s.returned = some (.error (.other "Connection reset by peer (os error 104)")) := by
  have hr : (run (Relay.step 20000) (Relay.start : Relay (List (ℕ × ℕ))) resetWhileClosing).map
      (fun s => (s.finSent, s.peerFin, s.returned)) =
      some (true, true, some (.error (.other "Connection reset by peer (os error 104)"))) := by decide
  obtain ⟨s, hs, heq⟩ := Option.map_eq_some_iff.mp hr
  simp only [Prod.mk.injEq] at heq
  exact ⟨s, hs, ⟨heq.1, heq.2.1⟩, heq.2.2⟩

/-- The peer ends without a byte for the Origin, and the deadline of an unanswered keepalive comes before
the end is recorded. -/
def endedAtDeadline : List Event :=
  [.tick 8000, .keepaliveDue, .writes, .tick 24000, .edgePuts (some .fin), .upReads, .deadlineDue, .judges]

/-- The peer's FIN is read, and the relay returns the verdict without one of its own. -/
theorem verdict_ends_the_winding :
    ∃ s : Relay (List (ℕ × ℕ)), run (Relay.step 60000) Relay.start endedAtDeadline = some s ∧
      s.read = [some .fin] ∧ .fin ∉ s.wire ∧ s.returned = some (.error (.peerDead 24000)) := by
  have hr : (run (Relay.step 60000) (Relay.start : Relay (List (ℕ × ℕ))) endedAtDeadline).map
      (fun s => (s.read, s.wire, s.returned)) =
      some ([some .fin], [.keepalive 1], some (.error (.peerDead 24000))) := by decide
  obtain ⟨s, hs, heq⟩ := Option.map_eq_some_iff.mp hr
  simp only [Prod.mk.injEq] at heq
  obtain ⟨hread, hwire, hret⟩ := heq
  exact ⟨s, hs, hread, by rw [hwire]; decide, hret⟩

/-- Both FINs have passed and the relay returns an error; the peer has ended and is sent no FIN. -/
theorem ended_by_reset_or_verdict :
    (∃ s : Relay (List (ℕ × ℕ)), run (Relay.step 20000) Relay.start resetWhileClosing = some s ∧
      s.BothFins ∧ s.returned = some (.error (.other "Connection reset by peer (os error 104)"))) ∧
    ∃ s : Relay (List (ℕ × ℕ)), run (Relay.step 60000) Relay.start endedAtDeadline = some s ∧
      s.read = [some .fin] ∧ .fin ∉ s.wire ∧ s.returned = some (.error (.peerDead 24000)) :=
  ⟨reset_ends_the_closing, verdict_ends_the_winding⟩

end

end CtAgent.Serve.Framed
