import CtAgent.Channel.PeerGrantRuns

/-! Where the bytes of a gate's run are: the own prelude goes out first, the peer's prelude is
collected and verified, and only then bytes reach the inner stream or come from it. -/
namespace CtAgent.Channel
open CtAgent.Lib

section
variable {γ : Type*} {codec : GrantCodec γ} {check : PeerGrantCheck γ} {s s' t : GateRun γ}
  {st : GateStep γ}

/-- The history has a verification that passed on these bytes. -/
def Verified (codec : GrantCodec γ) (check : PeerGrantCheck γ) (h : List (GateStep γ))
    (bytes : Bytes) : Prop :=
  ∃ data n now peer, .write data (.verified n bytes now peer) ∈ h ∧
    check.verify codec bytes now = .ok peer

theorem Verified.append {h : List (GateStep γ)} {bytes : Bytes} (hv : Verified codec check h bytes)
    (st : GateStep γ) : Verified codec check (h ++ [st]) bytes := by
  obtain ⟨data, n, now, peer, hm, hok⟩ := hv
  exact ⟨data, n, now, peer, List.mem_append_left _ hm, hok⟩

/-- A step that passes bytes on comes after a verification of the first bytes the peer sent. -/
def ReleasedBy (codec : GrantCodec γ) (check : PeerGrantCheck γ) (pre : List (GateStep γ))
    (st : GateStep γ) : Prop :=
  st.passes = true → preludeLen codec ≤ (pre.flatMap GateStep.accepted).length ∧
    Verified codec check pre ((pre.flatMap GateStep.accepted).take (preludeLen codec))

/-- While the gate is there, what was sent is part of the own prelude; the peer's bytes are in the
collector, and only behind a verified prelude with the inner stream. -/
structure Gated (codec : GrantCodec γ) (check : PeerGrantCheck γ) (s : GateRun γ) (g : Gate γ) :
    Prop where
  check_eq : g.check = check
  out_eq : g.out = check.prelude codec
  pos_le : g.outPos ≤ g.out.length
  sent_eq : s.sent = g.out.take g.outPos
  produced_eq : s.produced = []
  verified : g.verified = true → g.failed = none ∧ g.outPos < g.out.length ∧
    g.peer.length = preludeLen codec ∧ s.accepted = g.peer ++ s.received ∧
    Verified codec check s.history g.peer
  collecting : g.verified = false → s.received = [] ∧
    (g.failed = none → s.accepted = g.peer ∧ g.peer.length < preludeLen codec)

/-- Once the gate is gone both preludes are through. -/
structure Opened (codec : GrantCodec γ) (check : PeerGrantCheck γ) (s : GateRun γ) : Prop where
  sent_eq : s.sent = check.prelude codec ++ s.produced
  accepted_eq : ∃ peer, peer.length = preludeLen codec ∧ s.accepted = peer ++ s.received ∧
    Verified codec check s.history peer

structure GateInv (codec : GrantCodec γ) (check : PeerGrantCheck γ) (s : GateRun γ) : Prop where
  gated : ∀ g, s.gate.gate = some g → Gated codec check s g
  opened : s.gate.gate = none → Opened codec check s
  released : EachAfter (ReleasedBy codec check) s.history

theorem sent_append (h : s'.history = s.history ++ [st]) : s'.sent = s.sent ++ st.sent := by
  simp [GateRun.sent, h]

theorem produced_append (h : s'.history = s.history ++ [st]) :
    s'.produced = s.produced ++ st.produced := by
  simp [GateRun.produced, h]

theorem accepted_append (h : s'.history = s.history ++ [st]) :
    s'.accepted = s.accepted ++ st.accepted := by
  simp [GateRun.accepted, h]

theorem received_append (h : s'.history = s.history ++ [st]) :
    s'.received = s.received ++ st.received := by
  simp [GateRun.received, h]

/-- A step moves no byte of either stream. -/
def GateStep.still (st : GateStep γ) : Prop :=
  st.sent = [] ∧ st.produced = [] ∧ st.accepted = [] ∧ st.received = []

theorem gated_still {g g' : Gate γ} (hi : Gated codec check s g)
    (hh : s'.history = s.history ++ [st]) (hst : st.still)
    (hg : g'.check = g.check ∧ g'.out = g.out ∧ g'.outPos = g.outPos ∧ g'.verified = g.verified)
    (hpeer : g'.failed = none → g'.peer = g.peer ∧ g.failed = none)
    (hver : g.verified = true → g'.failed = none) : Gated codec check s' g' := by
  obtain ⟨h1, h2, h3, h4⟩ := hst
  obtain ⟨e1, e2, e3, e4⟩ := hg
  have hs := sent_append hh
  have hp := produced_append hh
  have ha := accepted_append hh
  have hr := received_append hh
  rw [h1, List.append_nil] at hs
  rw [h2, List.append_nil] at hp
  rw [h3, List.append_nil] at ha
  rw [h4, List.append_nil] at hr
  refine ⟨e1.trans hi.check_eq, e2.trans hi.out_eq, ?_, ?_, ?_, ?_, ?_⟩
  · rw [e2, e3]
    exact hi.pos_le
  · rw [hs, e2, e3]
    exact hi.sent_eq
  · rw [hp]
    exact hi.produced_eq
  · intro hv
    rw [e4] at hv
    have hf := hver hv
    obtain ⟨-, h6, h7, h8, h9⟩ := hi.verified hv
    rw [e2, e3, (hpeer hf).1, ha, hr, hh]
    exact ⟨hf, h6, h7, h8, h9.append st⟩
  · intro hv
    rw [e4] at hv
    obtain ⟨h5, h6⟩ := hi.collecting hv
    refine ⟨hr.trans h5, ?_⟩
    intro hf
    obtain ⟨hp1, hp2⟩ := hpeer hf
    rw [ha, hp1]
    exact h6 hp2

theorem opened_still (hi : Opened codec check s) (hh : s'.history = s.history ++ [st])
    (hst : st.sent = st.produced ∧ st.accepted = st.received) : Opened codec check s' := by
  obtain ⟨peer, h1, h2, h3⟩ := hi.accepted_eq
  refine ⟨?_, peer, h1, ?_, ?_⟩
  · rw [sent_append hh, produced_append hh, hi.sent_eq, hst.1, List.append_assoc]
  · rw [accepted_append hh, received_append hh, h2, hst.2, List.append_assoc]
  · rw [hh]
    exact h3.append st

/-- Bytes of the own prelude go out. -/
theorem inv_prelude {g : Gate γ} {n : ℕ} (hi : Gated codec check s g)
    (hpos : g.outPos < g.out.length) (hn : n ≤ g.out.length - g.outPos)
    (hh : s'.history = s.history ++ [.read (.prelude ((g.out.drop g.outPos).take n))]) :
    ((g.advance n).done = false → Gated codec check s' (g.advance n)) ∧
      ((g.advance n).done = true → Opened codec check s') := by
  have hs : s'.sent = g.out.take (g.outPos + n) := by
    rw [sent_append hh, hi.sent_eq, List.take_add]
    rfl
  have hp : s'.produced = [] := by
    rw [produced_append hh, hi.produced_eq]
    rfl
  have ha : s'.accepted = s.accepted := by
    rw [accepted_append hh]
    exact List.append_nil _
  have hr : s'.received = s.received := by
    rw [received_append hh]
    exact List.append_nil _
  constructor
  · intro hd
    refine ⟨hi.check_eq, hi.out_eq, ?_, hs, hp, ?_, ?_⟩
    · simp only [Gate.advance, Gate.armDeadline]
      omega
    · intro hv
      have hv' : g.verified = true := hv
      obtain ⟨h1, h2, h3, h4, h5⟩ := hi.verified hv'
      refine ⟨h1, ?_, h3, ?_, ?_⟩
      · simp only [Gate.advance, Gate.done, Gate.armDeadline, hv', Bool.true_and,
          beq_eq_false_iff_ne] at hd ⊢
        omega
      · rw [ha, hr]
        exact h4
      · rw [hh]
        exact h5.append _
    · intro hv
      rw [ha, hr]
      exact hi.collecting hv
  · intro hd
    simp only [Gate.advance, Gate.done, Gate.armDeadline, Bool.and_eq_true, beq_iff_eq] at hd
    obtain ⟨h1, h2, h3, h4, h5⟩ := hi.verified hd.1
    refine ⟨?_, g.peer, h3, ?_, ?_⟩
    · rw [hs, hp, hd.2, List.take_length, hi.out_eq, List.append_nil]
    · rw [ha, hr]
      exact h4
    · rw [hh]
      exact h5.append _

theorem take_length_le_min (data : Bytes) (k : ℕ) : (data.take (min data.length k)).length ≤ k := by
  rw [List.length_take]
  omega

theorem inv_collect {g : Gate γ} {data : Bytes} {n : ℕ} (hi : Gated codec check s g)
    (hv : g.verified = false) (hf : g.failed = none)
    (hn : n = min data.length (preludeLen codec - g.peer.length))
    (hlen : (g.peer ++ data.take n).length ≠ preludeLen codec)
    (hh : s'.history = s.history ++ [.write data (.collected n)]) :
    Gated codec check s' (g.collect (data.take n)) := by
  obtain ⟨h1, h2⟩ := hi.collecting hv
  obtain ⟨h3, h4⟩ := h2 hf
  have hle := take_length_le_min data (preludeLen codec - g.peer.length)
  rw [← hn] at hle
  rw [List.length_append] at hlen
  refine ⟨hi.check_eq, hi.out_eq, hi.pos_le, ?_, ?_, ?_, ?_⟩
  · rw [sent_append hh]
    exact (List.append_nil _).trans hi.sent_eq
  · rw [produced_append hh]
    exact (List.append_nil _).trans hi.produced_eq
  · intro hv'
    exact absurd (hv'.symm.trans hv) (by decide)
  · intro _
    refine ⟨?_, ?_⟩
    · rw [received_append hh, h1]
      rfl
    · intro _
      refine ⟨?_, ?_⟩
      · rw [accepted_append hh, h3]
        rfl
      · simp only [Gate.collect, Gate.armDeadline, List.length_append]
        omega

/-- The collected prelude passes the check. -/
theorem inv_verify {g : Gate γ} {data : Bytes} {n now : ℕ} {peer : γ} (hi : Gated codec check s g)
    (hv : g.verified = false) (hf : g.failed = none)
    (hlen : (g.peer ++ data.take n).length = preludeLen codec)
    (hok : g.check.verify codec (g.peer ++ data.take n) now = .ok peer)
    (hh : s'.history = s.history ++ [.write data (.verified n (g.peer ++ data.take n) now peer)]) :
    (({ g.collect (data.take n) with verified := true } : Gate γ).done = false →
      Gated codec check s' { g.collect (data.take n) with verified := true }) ∧
    (({ g.collect (data.take n) with verified := true } : Gate γ).done = true →
      Opened codec check s') := by
  obtain ⟨h1, h2⟩ := hi.collecting hv
  obtain ⟨h3, -⟩ := h2 hf
  have hs : s'.sent = g.out.take g.outPos := by
    rw [sent_append hh]
    exact (List.append_nil _).trans hi.sent_eq
  have hp : s'.produced = [] := by
    rw [produced_append hh]
    exact (List.append_nil _).trans hi.produced_eq
  have hr : s'.received = [] := by
    rw [received_append hh, h1]
    rfl
  have ha : s'.accepted = g.peer ++ data.take n := by
    rw [accepted_append hh, h3]
    rfl
  have hver : Verified codec check s'.history (g.peer ++ data.take n) := by
    refine ⟨data, n, now, peer, ?_, hi.check_eq ▸ hok⟩
    rw [hh]
    exact List.mem_append_right _ (List.mem_singleton.mpr rfl)
  constructor
  · intro hd
    refine ⟨hi.check_eq, hi.out_eq, hi.pos_le, hs, hp, ?_, ?_⟩
    · intro _
      refine ⟨hf, ?_, hlen, ?_, hver⟩
      · simp only [Gate.collect, Gate.done, Gate.armDeadline, Bool.true_and,
          beq_eq_false_iff_ne] at hd ⊢
        have := hi.pos_le
        omega
      · rw [ha, hr, List.append_nil]
        rfl
    · intro hv'
      cases hv'
  · intro hd
    simp only [Gate.collect, Gate.done, Gate.armDeadline, Bool.true_and, beq_iff_eq] at hd
    refine ⟨?_, g.peer ++ data.take n, hlen, ?_, hver⟩
    · rw [hs, hp, hd, List.take_length, hi.out_eq, List.append_nil]
    · rw [ha, hr, List.append_nil]

theorem released_after {peer : Bytes} (hlen : peer.length = preludeLen codec)
    (ha : s.accepted = peer ++ s.received) (hv : Verified codec check s.history peer)
    (st : GateStep γ) : ReleasedBy codec check s.history st := by
  intro _
  have htake : s.accepted.take (preludeLen codec) = peer := by
    rw [ha, ← hlen, List.take_left]
  refine ⟨?_, ?_⟩
  · change preludeLen codec ≤ s.accepted.length
    rw [ha, List.length_append, hlen]
    omega
  · change Verified codec check s.history (s.accepted.take (preludeLen codec))
    rw [htake]
    exact hv

theorem Opened.released (hi : Opened codec check s) (st : GateStep γ) :
    ReleasedBy codec check s.history st := by
  obtain ⟨peer, h1, h2, h3⟩ := hi.accepted_eq
  exact released_after h1 h2 h3 st

/-- A history grows by a step that neither asks the inner stream nor gives it bytes. -/
theorem released_append (hi : GateInv codec check s) (hh : s'.history = s.history ++ [st])
    (hst : ReleasedBy codec check s.history st) :
    EachAfter (ReleasedBy codec check) s'.history := by
  rw [hh]
  exact hi.released.append hst

theorem inv_same (hi : GateInv codec check s) (hh : s'.history = s.history ++ [st])
    (hst : st.still) (hp : st.passes = false) (hg : s'.gate.gate = s.gate.gate) :
    GateInv codec check s' := by
  refine ⟨?_, ?_, released_append hi hh (fun h => absurd (hp.symm.trans h) (by decide))⟩
  · intro g hgate
    have hi' := hi.gated g (hg.symm.trans hgate)
    refine gated_still hi' hh hst ⟨rfl, rfl, rfl, rfl⟩ (fun hf => ⟨rfl, hf⟩) ?_
    intro hv
    exact (hi'.verified hv).1
  · intro hgate
    refine opened_still (hi.opened (hg.symm.trans hgate)) hh ?_
    rw [hst.1, hst.2.1, hst.2.2.1, hst.2.2.2]
    exact ⟨rfl, rfl⟩

/-- The gate stays, with no bytes moved and perhaps failed now. -/
theorem inv_stays (hi : GateInv codec check s) (hh : s'.history = s.history ++ [st])
    (hst : st.still) (hp : st.passes = false) {g g' : Gate γ} (hgate : s.gate.gate = some g)
    (hgate' : s'.gate.gate = some g')
    (hg : g'.check = g.check ∧ g'.out = g.out ∧ g'.outPos = g.outPos ∧ g'.verified = g.verified)
    (hpeer : g'.failed = none → g'.peer = g.peer ∧ g.failed = none)
    (hver : g.verified = true → g'.failed = none) : GateInv codec check s' := by
  refine ⟨?_, ?_, released_append hi hh (fun h => absurd (hp.symm.trans h) (by decide))⟩
  · intro x hx
    rw [hgate', Option.some.injEq] at hx
    subst hx
    exact gated_still (hi.gated g hgate) hh hst hg hpeer hver
  · intro hx
    rw [hgate'] at hx
    cases hx

theorem still_denied_read (error : String) : (GateStep.read (γ := γ) (.denied error)).still :=
  ⟨rfl, rfl, rfl, rfl⟩

theorem still_denied_write (data : Bytes) (error : String) :
    (GateStep.write (γ := γ) data (.denied error)).still := ⟨rfl, rfl, rfl, rfl⟩

theorem inv_opened (hi : GateInv codec check s) (hh : s'.history = s.history ++ [st])
    (hst : st.sent = st.produced ∧ st.accepted = st.received) (hgate : s.gate.gate = none)
    (hgate' : s'.gate.gate = none) : GateInv codec check s' := by
  have ho := hi.opened hgate
  refine ⟨?_, fun _ => opened_still ho hh hst, released_append hi hh (ho.released st)⟩
  intro g hg
  rw [hgate'] at hg
  cases hg

/-- A step that may be the one that removes the gate. -/
theorem inv_done_or (hi : GateInv codec check s) (hh : s'.history = s.history ++ [st])
    (hp : st.passes = false) {g' : Gate γ}
    (hgate' : s'.gate.gate = if g'.done then none else some g')
    (h : (g'.done = false → Gated codec check s' g') ∧ (g'.done = true → Opened codec check s')) :
    GateInv codec check s' := by
  refine ⟨?_, ?_, released_append hi hh (fun h => absurd (hp.symm.trans h) (by decide))⟩
  · intro g hg
    rw [hgate'] at hg
    split at hg
    · cases hg
    · rename_i hd
      cases hg
      exact h.1 (by simpa using hd)
  · intro hg
    rw [hgate'] at hg
    split at hg
    · rename_i hd
      exact h.2 hd
    · cases hg

/-- Peer bytes go to the inner stream while the rest of the own prelude is still unread. -/
theorem inv_passWrite (hi : GateInv codec check s) {g : Gate γ} {data : Bytes} {a : Poll ℕ}
    (hh : s'.history = s.history ++ [.write data (.inner data a)]) (hgate : s.gate.gate = some g)
    (hgate' : s'.gate.gate = some g) (hv : g.verified = true) : GateInv codec check s' := by
  have hg := hi.gated g hgate
  obtain ⟨h1, h2, h3, h4, h5⟩ := hg.verified hv
  have hsame : (GateStep.write (γ := γ) data (.inner data a)).accepted =
      (GateStep.write (γ := γ) data (.inner data a)).received := by
    cases a <;> rfl
  refine ⟨?_, ?_, released_append hi hh (released_after h3 h4 h5 _)⟩
  · intro x hx
    rw [hgate', Option.some.injEq] at hx
    subst hx
    refine ⟨hg.check_eq, hg.out_eq, hg.pos_le, ?_, ?_, ?_, ?_⟩
    · rw [sent_append hh]
      exact (List.append_nil _).trans hg.sent_eq
    · rw [produced_append hh]
      exact (List.append_nil _).trans hg.produced_eq
    · intro _
      refine ⟨h1, h2, h3, ?_, ?_⟩
      · rw [accepted_append hh, received_append hh, h4, hsame, List.append_assoc]
      · rw [hh]
        exact h5.append _
    · intro hv'
      exact absurd (hv'.symm.trans hv) (by decide)
  · intro hx
    rw [hgate'] at hx
    cases hx

theorem inv_move (hi : GateInv codec check s) (hh : s'.history = s.history ++ [st])
    (hm : GateMove codec s.gate s'.gate st) : GateInv codec check s' := by
  cases hm with
  | eof hg he => exact inv_same hi hh ⟨rfl, rfl, rfl, rfl⟩ rfl hg
  | endedWrite data error hg he => exact inv_same hi hh (still_denied_write data error) rfl hg
  | openRead a ha hg hg' =>
    refine inv_opened hi hh ?_ hg hg'
    cases a <;> exact ⟨rfl, rfl⟩
  | prelude g n hg hpos hn ha hg' =>
    exact inv_done_or hi hh rfl hg' (inv_prelude (hi.gated g hg) hpos hn hh)
  | failedRead g why error hg hf hg' =>
    refine inv_stays hi hh (still_denied_read error) rfl hg hg' ⟨rfl, rfl, rfl, rfl⟩
      (fun h => ⟨rfl, h⟩) ?_
    intro hv
    exact ((hi.gated g hg).verified hv).1
  | verifiedRead g a ha hg hpos hv hf hg' =>
    -- a verified gate is removed with the last byte of the own prelude
    obtain ⟨-, hlt, -⟩ := (hi.gated g hg).verified hv
    omega
  | timeout g why error hg hv hf hg' =>
    refine inv_stays hi hh (still_denied_read error) rfl hg hg' ⟨rfl, rfl, rfl, rfl⟩
      (fun h => by cases h) ?_
    intro hv'
    exact absurd (hv'.symm.trans hv) (by decide)
  | wait g hg hf ha hg' =>
    exact inv_stays hi hh ⟨rfl, rfl, rfl, rfl⟩ rfl hg hg' ⟨rfl, rfl, rfl, rfl⟩
      (fun h => ⟨rfl, h⟩) (fun _ => hf)
  | openWrite data a ha hg hg' =>
    refine inv_opened hi hh ?_ hg hg'
    cases a <;> exact ⟨rfl, rfl⟩
  | failedWrite g data why error hg hf hg' =>
    exact inv_same hi hh (still_denied_write data error) rfl (hg'.trans hg.symm)
  | passWrite g data a ha hg hv hf hg' => exact inv_passWrite hi hh hg hg' hv
  | collect g data n ha hg hv hf hn hlen hg' =>
    have hgated := inv_collect (hi.gated g hg) hv hf hn hlen hh
    refine ⟨?_, ?_, released_append hi hh (fun h => by cases h)⟩
    · intro x hx
      rw [hg', Option.some.injEq] at hx
      exact hx ▸ hgated
    · intro hx
      rw [hg'] at hx
      cases hx
  | verify g data n now peer ha hg hv hf hlen hok hg' =>
    exact inv_done_or hi hh rfl hg' (inv_verify (hi.gated g hg) hv hf hlen hok hh)
  | refuse g data bytes why error hg hv hf hg' =>
    refine inv_stays hi hh (still_denied_write data error) rfl hg hg' ⟨rfl, rfl, rfl, rfl⟩
      (fun h => by cases h) ?_
    intro hv'
    exact absurd (hv'.symm.trans hv) (by decide)
  | closed g why hg hv hf hg' =>
    refine inv_stays hi hh ⟨rfl, rfl, rfl, rfl⟩ rfl hg hg' ⟨rfl, rfl, rfl, rfl⟩
      (fun h => by cases h) ?_
    intro hv'
    exact absurd (hv'.symm.trans hv) (by decide)
  | shutdown hg => exact inv_same hi hh ⟨rfl, rfl, rfl, rfl⟩ rfl hg
  | recorded e hg => exact inv_same hi hh ⟨rfl, rfl, rfl, rfl⟩ rfl hg

theorem gateInv_init (check : PeerGrantCheck γ) (ownExpiresAt : Option ℕ)
    (record : Option (Option GrantEnd)) :
    GateInv codec check (GateRun.init codec check ownExpiresAt record) := by
  refine ⟨?_, ?_, EachAfter.nil _⟩
  · intro g hg
    simp only [GateRun.init, PeerGrantGate.build, Option.map_some, Option.some.injEq] at hg
    subst hg
    refine ⟨rfl, rfl, Nat.zero_le _, rfl, rfl, fun hv => (by cases hv), ?_⟩
    intro _
    refine ⟨rfl, fun _ => ⟨rfl, ?_⟩⟩
    simp [preludeLen, magic]
  · intro hg
    cases hg

theorem reachable_gateInv {ownExpiresAt : Option ℕ} {record : Option (Option GrantEnd)}
    (hr : Reachable (GateRun.step codec) (GateRun.init codec check ownExpiresAt record) s) :
    GateInv codec check s := by
  refine reachable_invariant ?_ (gateInv_init check ownExpiresAt record) hr
  intro s c s' hi h
  obtain ⟨st, hh, hm⟩ := gate_step h
  exact inv_move hi hh hm

end

end CtAgent.Channel
