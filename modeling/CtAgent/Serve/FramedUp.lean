import CtAgent.Serve.FramedRelay

/-! From the edge to the Origin on the framed relay: when the Origin is dialed, which bytes it gets, and
how the end of the peer's data gets to the writer. -/
namespace CtAgent.Serve.Framed

open CtAgent.Lib

/-- The bytes of the DATA frames. -/
def payloads (put : List (Option Frame)) : Bytes :=
  put.flatMap (fun f => match f with
    | some (.data d) => d
    | _ => [])

/-- The bytes that are read off the edge and not yet with the Origin. -/
def Up.inHand : Up → Bytes
  | .dialing d => d
  | .writing rest => rest
  | _ => []

theorem payloads_append (put put' : List (Option Frame)) :
    payloads (put ++ put') = payloads put ++ payloads put' := List.flatMap_append

@[simp] theorem Up.inHand_write (rest : Bytes) : (Up.write rest).inHand = rest := by
  unfold Up.write
  split_ifs with h
  · exact h.symm
  · rfl

theorem accepts_iff {put : List (Option Frame)} {f : Option Frame} : accepts put f = true ↔
    none ∉ put ∧ (some .fin ∈ put → ∀ d, f ≠ some (.data d)) := by
  cases f with
  | none => simp [accepts]
  | some f => cases f <;> simp [accepts, Frame.isData]

section
variable {κ : Type}

/-- The half from the edge has read the peer's FIN or the end of the stream. -/
def Relay.Ended (s : Relay κ) : Prop := some .fin ∈ s.read ∨ none ∈ s.read

/-- The half from the edge. -/
structure UpInv (s : Relay κ) : Prop where
  accepted : EachAfter (fun put f => accepts put f = true) s.put
  relayed : s.toOrigin ++ s.up.inHand = payloads s.read
  nonempty : ∀ d, s.up = .dialing d ∨ s.up = .writing d → d ≠ []
  ended : s.Ended → s.up.inHand = []
  once : s.dials ≤ 1
  spoke : s.dials = 1 → ∃ d, d ≠ [] ∧ some (.data d) ∈ s.read
  dialed : s.dials = 1 → (∃ d, s.up = .dialing d) ∨ s.originW = true ∨ s.Ended
  undialed : s.dials = 0 → s.originW = false ∧ s.dial ≠ .sent ∧ s.up.inHand = [] ∧
    ∀ last, s.up ≠ .halfClosing last
  closing : ∀ last, s.up = .halfClosing last ∨ s.up = .sending .peerFin last → s.Ended
  dropped : s.Ended → s.dials = 0 → s.dial = .dropped ∨ s.up = .sending .peerFin true
  finished : s.up = .done → s.Ended
  /-- the relayed data and the FIN of the Origin come from the other half -/
  sends : ∀ ev last, s.up = .sending ev last → ev ≠ .fin ∧ (∀ d, ev ≠ .data d) ∧ (last = true → ev = .peerFin)

theorem UpInv.congr {s t : Relay κ} (h : UpInv s) (hread : t.read = s.read) (hstream : t.stream = s.stream)
    (hup : t.up = s.up) (hw : t.originW = s.originW) (hdial : t.dial = s.dial) (hdials : t.dials = s.dials)
    (hto : t.toOrigin = s.toOrigin) : UpInv t := by
  have hended : t.Ended ↔ s.Ended := by rw [Relay.Ended, hread, ← Relay.Ended]
  constructor
  · rw [Relay.put, hread, hstream]
    exact h.accepted
  · rw [hto, hup, hread]
    exact h.relayed
  · rw [hup]
    exact h.nonempty
  · rw [hended, hup]
    exact h.ended
  · rw [hdials]
    exact h.once
  · rw [hdials, hread]
    exact h.spoke
  · rw [hdials, hup, hw, hended]
    exact h.dialed
  · rw [hdials, hw, hdial, hup]
    exact h.undialed
  · rw [hup, hended]
    exact h.closing
  · rw [hended, hdials, hdial, hup]
    exact h.dropped
  · rw [hup, hended]
    exact h.finished
  · rw [hup]
    exact h.sends

/-- Behind the end no DATA is left to read. -/
theorem UpInv.not_ended {s : Relay κ} (h : UpInv s) {f : Option Frame} {rest : List (Option Frame)}
    (hs : s.stream = f :: rest) : none ∉ s.read ∧ ∀ d, f = some (.data d) → ¬ s.Ended := by
  have hput : s.put = s.read ++ f :: rest := by rw [Relay.put, hs]
  obtain ⟨hnone, hfin⟩ := accepts_iff.mp (h.accepted _ _ _ hput)
  refine ⟨hnone, fun d hd he => ?_⟩
  rcases he with he | he
  · exact hfin he d hd
  · exact hnone he

theorem UpInv.accepted_read {s : Relay κ} (h : UpInv s) {f : Option Frame} {rest : List (Option Frame)}
    (hs : s.stream = f :: rest) :
    EachAfter (fun put f => accepts put f = true) (s.read ++ [f] ++ rest) := by
  have hput : s.put = s.read ++ [f] ++ rest := by simp [Relay.put, hs]
  exact hput ▸ h.accepted

/-- A frame that carries nothing for the Origin, with what the half does next. -/
theorem UpInv.handleQuiet {s : Relay κ} (h : UpInv s) {f : Option Frame} {rest : List (Option Frame)}
    (hu : s.up = .reading) (hs : s.stream = f :: rest) (hfin : f ≠ some .fin) (hnone : f ≠ none)
    (hp : payloads [f] = []) {u : Up} (hnext : u = .reading ∨ ∃ ev, u = .sending ev false ∧
      ev ≠ .peerFin ∧ ev ≠ .fin ∧ ∀ d, ev ≠ .data d) :
    UpInv { s with read := s.read ++ [f], stream := rest, up := u } := by
  have hended : Relay.Ended { s with read := s.read ++ [f], stream := rest, up := u } ↔ s.Ended := by
    simp [Relay.Ended, hfin.symm, hnone.symm]
  have hin : u.inHand = [] := by
    rcases hnext with rfl | ⟨ev, rfl, -⟩
    · rfl
    · rfl
  have hlast (ev : EdgeWrite) (last : Bool) (hu' : u = .sending ev last) :
      ev ≠ .peerFin ∧ ev ≠ .fin ∧ ∀ d, ev ≠ .data d := by
    subst hu'
    rcases hnext with hn | ⟨ev', hn, h1⟩
    · cases hn
    · cases hn
      exact h1
  have hclosing (last : Bool) : u ≠ .halfClosing last := by
    rcases hnext with rfl | ⟨ev, rfl, -⟩
    · simp
    · simp
  constructor
  · exact h.accepted_read hs
  · have hrel := h.relayed
    rw [hu] at hrel
    simp only [hin, payloads_append, hp, List.append_nil]
    simpa [Up.inHand] using hrel
  · rintro d (hd | hd)
    · simp only at hd
      rcases hnext with rfl | ⟨ev, rfl, -⟩ <;> cases hd
    · simp only at hd
      rcases hnext with rfl | ⟨ev, rfl, -⟩ <;> cases hd
  · exact fun _ => hin
  · exact h.once
  · intro hd
    obtain ⟨d, hne, hmem⟩ := h.spoke hd
    exact ⟨d, hne, List.mem_append_left _ hmem⟩
  · intro hd
    rcases h.dialed hd with ⟨d, hd⟩ | hd | hd
    · cases hu.symm.trans hd
    · exact .inr (.inl hd)
    · exact .inr (.inr (hended.mpr hd))
  · intro hd
    obtain ⟨h1, h2, -⟩ := h.undialed hd
    exact ⟨h1, h2, hin, hclosing⟩
  · rintro last (hl | hl)
    · exact absurd hl (hclosing last)
    · exact absurd rfl (hlast _ _ hl).1
  · intro he hd
    rcases h.dropped (hended.mp he) hd with hd | hd
    · exact .inl hd
    · cases hu.symm.trans hd
  · intro hd
    simp only at hd
    rcases hnext with rfl | ⟨ev, rfl, -⟩ <;> cases hd
  · intro ev last hl
    obtain ⟨-, h1, h2⟩ := hlast ev last hl
    refine ⟨h1, h2, fun htrue => ?_⟩
    simp only at hl
    rcases hnext with rfl | ⟨ev', rfl, -⟩
    · cases hl
    · cases hl
      cases htrue

/-- The Client's bytes: to the open Origin, or to the first dial. -/
theorem UpInv.handleData {s : Relay κ} (h : UpInv s) {d : Bytes} {rest : List (Option Frame)}
    (hu : s.up = .reading) (hs : s.stream = some (.data d) :: rest) (hd : d ≠ []) :
    UpInv (Relay.handle { s with read := s.read ++ [some (.data d)], stream := rest } (some (.data d))) := by
  have hnot : ¬ s.Ended := (h.not_ended hs).2 d rfl
  have hrel : s.toOrigin = payloads s.read := by simpa [hu, Up.inHand] using h.relayed
  have hpay : s.toOrigin ++ d = payloads (s.read ++ [some (.data d)]) := by
    rw [payloads_append, ← hrel]
    simp [payloads]
  simp only [Relay.handle, if_neg hd]
  split_ifs with hw
  · constructor
    · exact h.accepted_read hs
    · exact hpay
    · rintro d' (hd' | hd')
      · cases hd'
      · cases hd'
        exact hd
    · intro he
      exact absurd (by simpa [Relay.Ended] using he) hnot
    · exact h.once
    · intro _
      exact ⟨d, hd, by simp⟩
    · intro _
      exact .inr (.inl hw)
    · intro h0
      have hw' := (h.undialed h0).1
      exact absurd hw (by simp [hw'])
    · rintro last (hl | hl) <;> cases hl
    · intro he
      exact absurd (by simpa [Relay.Ended] using he) hnot
    · intro hl
      cases hl
    · intro ev last hl
      cases hl
  · -- nothing was dialed before
    have h0 : s.dials = 0 := by
      by_contra hne
      have h1 : s.dials = 1 := by
        have hle := h.once
        omega
      rcases h.dialed h1 with ⟨d', hd'⟩ | hw' | he
      · cases hu.symm.trans hd'
      · exact hw hw'
      · exact hnot he
    constructor
    · exact h.accepted_read hs
    · exact hpay
    · rintro d' (hd' | hd')
      · cases hd'
        exact hd
      · cases hd'
    · intro he
      exact absurd (by simpa [Relay.Ended] using he) hnot
    · simp [h0]
    · intro _
      exact ⟨d, hd, by simp⟩
    · intro _
      exact .inl ⟨d, rfl⟩
    · intro h1
      cases h1
    · rintro last (hl | hl) <;> cases hl
    · intro he
      exact absurd (by simpa [Relay.Ended] using he) hnot
    · intro hl
      cases hl
    · intro ev last hl
      cases hl

/-- The peer's FIN, or the end of the stream (`last`). -/
theorem UpInv.peerEnds {s : Relay κ} (h : UpInv s) {f : Option Frame} {rest : List (Option Frame)}
    (hu : s.up = .reading) (hs : s.stream = f :: rest) (last : Bool)
    (hf : f = if last then none else some .fin) :
    UpInv (Relay.peerEnds { s with read := s.read ++ [f], stream := rest } last) := by
  have hrel : s.toOrigin = payloads s.read := by simpa [hu, Up.inHand] using h.relayed
  have hpay : payloads [f] = [] := by
    subst hf
    cases last <;> rfl
  have hended : some .fin ∈ s.read ++ [f] ∨ none ∈ s.read ++ [f] := by
    subst hf
    cases last <;> simp
  have hphase : Relay.peerEnds { s with read := s.read ++ [f], stream := rest } last =
      { s with
        read := s.read ++ [f]
        stream := rest
        up := if s.originW then .halfClosing last else .sending .peerFin last
        originW := false
        dial := if last then s.dial else s.dial.drop } := by
    cases last <;> rfl
  rw [hphase]
  have hin : (if s.originW then Up.halfClosing last else .sending .peerFin last).inHand = [] := by
    split_ifs <;> rfl
  constructor
  · exact h.accepted_read hs
  · simp only [hin, payloads_append, hpay, List.append_nil, hrel]
  · rintro d (hd | hd)
    · simp only at hd
      split_ifs at hd
    · simp only at hd
      split_ifs at hd
  · exact fun _ => hin
  · exact h.once
  · intro hd
    obtain ⟨d, hne, hmem⟩ := h.spoke hd
    exact ⟨d, hne, List.mem_append_left _ hmem⟩
  · exact fun _ => .inr (.inr hended)
  · intro hd
    obtain ⟨hw, hsent, -⟩ := h.undialed hd
    refine ⟨rfl, ?_, hin, ?_⟩
    · cases hdial : s.dial <;> cases last <;> simp_all [Dial.drop]
    · simp [hw]
  · exact fun _ _ => hended
  · intro _ hd
    obtain ⟨hw, hsent, -⟩ := h.undialed hd
    cases last with
    | true => exact .inr (by simp [hw])
    | false =>
      left
      cases hdial : s.dial with
      | sent => exact absurd hdial hsent
      | _ => rfl
  · intro hd
    simp only at hd
    split_ifs at hd
  · intro ev last' hl
    simp only at hl
    split_ifs at hl
    cases hl
    exact ⟨by simp, by simp, fun _ => rfl⟩

theorem UpInv.handle {s : Relay κ} (h : UpInv s) {f : Option Frame} {rest : List (Option Frame)}
    (hu : s.up = .reading) (hs : s.stream = f :: rest) :
    UpInv (Relay.handle { s with read := s.read ++ [f], stream := rest } f) := by
  cases f with
  | none => exact h.peerEnds hu hs true rfl
  | some f =>
    cases f with
    | fin => exact h.peerEnds hu hs false rfl
    | data d =>
      by_cases hd : d = []
      · subst hd
        have hq := h.handleQuiet hu hs (by simp) (by simp) rfl (u := .reading) (.inl rfl)
        rw [← hu] at hq
        exact hq
      · exact h.handleData hu hs hd
    | keepalive c shouldAck =>
      cases shouldAck with
      | false =>
        have hq := h.handleQuiet hu hs (by simp) (by simp) rfl (u := .reading) (.inl rfl)
        rw [← hu] at hq
        exact hq
      | true =>
        exact h.handleQuiet hu hs (by simp) (by simp) rfl
          (.inr ⟨.ack c, rfl, by simp, by simp, by simp⟩)
    | keepaliveAck c =>
      exact h.handleQuiet hu hs (by simp) (by simp) rfl
        (.inr ⟨.ackReceived c, rfl, by simp, by simp, by simp⟩)

theorem UpInv.stepUp {s t : Relay κ} {e : Event} (h : UpInv s) (hs : UpStep s e t) : UpInv t := by
  cases hs with
  | reads f rest hu hs => exact h.handle hu hs
  | fails e text hu => exact h.congr rfl rfl rfl rfl rfl rfl rfl
  | dials d hu hd =>
    have hne : d ≠ [] := h.nonempty d (.inl hu)
    have hin : s.up.inHand = d := by rw [hu, Up.inHand]
    have hnot : ¬ s.Ended := fun he => hne (hin.symm.trans (h.ended he))
    constructor
    · exact h.accepted
    · exact hin ▸ h.relayed
    · rintro d' (hd' | hd')
      · cases hd'
      · cases hd'
        exact hne
    · exact fun he => absurd he hnot
    · exact h.once
    · exact h.spoke
    · exact fun _ => .inr (.inl rfl)
    · exact fun h0 => absurd (hin.symm.trans (h.undialed h0).2.2.1) hne
    · rintro last (hl | hl) <;> cases hl
    · exact fun he => absurd he hnot
    · intro hl
      cases hl
    · intro ev last hl
      cases hl
  | takes n rest hu hn hle =>
    have hne : rest ≠ [] := h.nonempty rest (.inr hu)
    have hin : s.up.inHand = rest := by rw [hu, Up.inHand]
    have hnot : ¬ s.Ended := fun he => hne (hin.symm.trans (h.ended he))
    have hphase : Up.write (rest.drop n) = .reading ∨
        (Up.write (rest.drop n) = .writing (rest.drop n) ∧ rest.drop n ≠ []) := by
      unfold Up.write
      split_ifs with hd
      · exact .inl rfl
      · exact .inr ⟨rfl, hd⟩
    constructor
    · exact h.accepted
    · have hrel := h.relayed
      rw [hin] at hrel
      simp only [Up.inHand_write, List.append_assoc, List.take_append_drop]
      exact hrel
    · rintro d (hd | hd)
      · rcases hphase with hp | ⟨hp, -⟩ <;> cases hp.symm.trans hd
      · rcases hphase with hp | ⟨hp, hne'⟩
        · cases hp.symm.trans hd
        · cases hp.symm.trans hd
          exact hne'
    · exact fun he => absurd he hnot
    · exact h.once
    · exact h.spoke
    · intro h1
      rcases h.dialed h1 with ⟨d, hd⟩ | hw | he
      · cases hu.symm.trans hd
      · exact .inr (.inl hw)
      · exact absurd he hnot
    · exact fun h0 => absurd (hin.symm.trans (h.undialed h0).2.2.1) hne
    · rintro last (hl | hl)
      · rcases hphase with hp | ⟨hp, -⟩ <;> cases hp.symm.trans hl
      · rcases hphase with hp | ⟨hp, -⟩ <;> cases hp.symm.trans hl
    · exact fun he => absurd he hnot
    · intro hl
      rcases hphase with hp | ⟨hp, -⟩ <;> cases hp.symm.trans hl
    · intro ev last hl
      rcases hphase with hp | ⟨hp, -⟩ <;> cases hp.symm.trans hl
  | halfCloses last hu =>
    have he : s.Ended := h.closing last (.inl hu)
    have h0 : s.dials ≠ 0 := fun h0 => (h.undialed h0).2.2.2 last hu
    constructor
    · exact h.accepted
    · have hrel := h.relayed
      rw [h.ended he] at hrel
      exact hrel
    · rintro d (hd | hd) <;> cases hd
    · exact fun _ => rfl
    · exact h.once
    · exact h.spoke
    · exact fun _ => .inr (.inr he)
    · exact fun hz => absurd hz h0
    · exact fun _ _ => he
    · exact fun _ hz => absurd hz h0
    · exact fun _ => he
    · intro ev last' hl
      cases hl
      exact ⟨by simp, by simp, fun _ => rfl⟩
  | sends ev hu hq =>
    have hin : s.up.inHand = [] := hu ▸ rfl
    constructor
    · exact h.accepted
    · have hrel := h.relayed
      rw [hin] at hrel
      exact hrel
    · rintro d (hd | hd) <;> cases hd
    · exact fun _ => rfl
    · exact h.once
    · exact h.spoke
    · intro h1
      rcases h.dialed h1 with ⟨d, hd⟩ | hw | he
      · cases hu.symm.trans hd
      · exact .inr (.inl hw)
      · exact .inr (.inr he)
    · intro h0
      obtain ⟨hw, hsent, -, -⟩ := h.undialed h0
      exact ⟨hw, hsent, rfl, by simp⟩
    · rintro last (hl | hl) <;> cases hl
    · intro he h0
      rcases h.dropped he h0 with hd | hd
      · exact .inl hd
      · cases hu.symm.trans hd
    · intro hl
      cases hl
    · intro ev' last hl
      cases hl
  | sendsLast ev hu hq =>
    have hin : s.up.inHand = [] := hu ▸ rfl
    obtain rfl : ev = .peerFin := (h.sends ev true hu).2.2 rfl
    have he : s.Ended := h.closing true (.inr hu)
    constructor
    · exact h.accepted
    · have hrel := h.relayed
      rw [hin] at hrel
      exact hrel
    · rintro d (hd | hd) <;> cases hd
    · exact fun _ => rfl
    · exact h.once
    · exact h.spoke
    · exact fun _ => .inr (.inr he)
    · intro h0
      obtain ⟨hw, hsent, -, -⟩ := h.undialed h0
      refine ⟨hw, ?_, rfl, by simp⟩
      cases hdial : s.dial with
      | sent => exact absurd hdial hsent
      | _ => simp [Dial.drop]
    · rintro last (hl | hl) <;> cases hl
    · intro _ h0
      obtain ⟨-, hsent, -, -⟩ := h.undialed h0
      left
      cases hdial : s.dial with
      | sent => exact absurd hdial hsent
      | _ => rfl
    · exact fun _ => he
    · intro ev' last hl
      cases hl

/-- The bytes that the half has in hand are the only ones it has not relayed, and none once it has read
the peer's FIN. -/
theorem UpInv.toOrigin {s : Relay κ} (h : UpInv s) : s.toOrigin <+: payloads s.put := by
  rw [Relay.put, payloads_append, ← h.relayed, List.append_assoc]
  exact List.prefix_append _ _

theorem UpInv.toOrigin_all {s : Relay κ} (h : UpInv s) (he : s.Ended) : s.toOrigin = payloads s.put := by
  -- what is unread behind the end carries no data
  have hrest : payloads s.stream = [] := by
    simp only [payloads, List.flatMap_eq_nil_iff]
    intro f hf
    obtain ⟨pre, post, hsplit⟩ := List.append_of_mem hf
    have hput : s.put = (s.read ++ pre) ++ f :: post := by rw [Relay.put, hsplit, List.append_assoc]
    obtain ⟨hnone, hfin⟩ := accepts_iff.mp (h.accepted _ _ _ hput)
    have hdata : ∀ d, f ≠ some (.data d) := by
      rcases he with he | he
      · exact hfin (List.mem_append_left _ he)
      · exact absurd (List.mem_append_left _ he) hnone
    split
    · exact absurd rfl (hdata _)
    · rfl
  rw [Relay.put, payloads_append, hrest, List.append_nil, ← h.relayed, h.ended he, List.append_nil]

section
variable [KeepaliveTracker κ]

theorem UpInv.start : UpInv (Relay.start : Relay κ) where
  accepted := EachAfter.nil _
  relayed := rfl
  nonempty d hd := by
    rcases hd with hd | hd <;> cases hd
  ended _ := rfl
  once := Nat.zero_le _
  spoke hd := by cases hd
  dialed hd := by cases hd
  undialed _ := ⟨rfl, by simp [Relay.start], rfl, by simp [Relay.start]⟩
  closing last hl := by
    rcases hl with hl | hl <;> cases hl
  dropped he := by simp [Relay.Ended, Relay.start] at he
  finished hd := by cases hd
  sends ev last hl := by cases hl

theorem UpInv.step {idleBound : ℕ} {s t : Relay κ} {e : Event} (h : UpInv s)
    (hs : s.step idleBound e = some t) : UpInv t := by
  obtain ⟨-, ⟨ms, rfl, rfl⟩ | ⟨f, rfl, hf, rfl⟩ | hs | hs | hs⟩ := Relay.step_cases hs
  · exact h.congr rfl rfl rfl rfl rfl rfl rfl
  · have hacc : EachAfter (fun put f => accepts put f = true) (s.read ++ (s.stream ++ [f])) := by
      rw [← List.append_assoc]
      exact h.accepted.append hf
    exact ⟨hacc, h.relayed, h.nonempty, h.ended, h.once, h.spoke, h.dialed, h.undialed, h.closing, h.dropped,
      h.finished, h.sends⟩
  · exact h.stepUp hs
  · cases hs <;> exact h.congr rfl rfl rfl rfl rfl rfl rfl
  · have hsame := hs.sameHalves
    exact h.congr hsame.read hsame.stream hsame.up hsame.originW hsame.dial hsame.dials hsame.toOrigin

end

end

end CtAgent.Serve.Framed
