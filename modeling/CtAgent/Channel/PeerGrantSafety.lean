import CtAgent.Channel.PeerGrantInv

/-! Nothing passes the gate before the peer's grant verified, and nothing of either inner side after
the gate failed or the grant ended. -/
namespace CtAgent.Channel
open CtAgent.Lib

section
variable {γ : Type*} {codec : GrantCodec γ} {check : PeerGrantCheck γ} {s s' t : GateRun γ}
  {st : GateStep γ}

/-- An end, once there, stays as it is; so does a recorded one. -/
structure LifeKept (l l' : GrantLifetime) : Prop where
  ended : ∀ why, l.ended = some why → l'.ended = some why
  record : ∀ e, l.record = some (some e) → l'.record = some (some e)

theorem lifeKept_refl (l : GrantLifetime) : LifeKept l l := ⟨fun _ h => h, fun _ h => h⟩

theorem LifeKept.trans {l l' l'' : GrantLifetime} (h : LifeKept l l') (h' : LifeKept l' l'') :
    LifeKept l l'' :=
  ⟨fun why hw => h'.ended why (h.ended why hw), fun e he => h'.record e (h.record e he)⟩

theorem recordEnd_kept (e : GrantEnd) (l : GrantLifetime) : LifeKept l (l.recordEnd e) := by
  refine ⟨fun _ h => h, ?_⟩
  intro e' he
  simp [GrantLifetime.recordEnd, he]

theorem endWith_kept (e : GrantEnd) {l : GrantLifetime} (hl : l.ended = none) :
    LifeKept l (l.endWith e) := by
  refine ⟨?_, (recordEnd_kept e l).record⟩
  intro why h
  rw [hl] at h
  cases h

theorem pollEnded_kept (env : GateEnv) (l : GrantLifetime) : LifeKept l (l.pollEnded env).2 := by
  unfold GrantLifetime.pollEnded
  split
  · exact lifeKept_refl l
  · rename_i h
    have hl : l.ended = none := by simpa using h
    split
    · exact endWith_kept _ hl
    · split
      · exact endWith_kept _ hl
      · exact endWith_kept _ hl
      · split
        · exact endWith_kept _ hl
        · exact ⟨fun _ h => h, fun _ h => h⟩
        · exact lifeKept_refl l

theorem pollRead_life (env : GateEnv) (remaining : ℕ) (p : PeerGrantGate γ) :
    (p.pollRead env remaining).2.life = (p.life.pollEnded env).2 := by
  unfold PeerGrantGate.pollRead
  split
  · rename_i life h
    rw [h]
  · rename_i life h
    rw [h]
    split
    · rfl
    · dsimp only
      split
      · rfl
      · split
        · rfl
        · split
          · rfl
          · split <;> rfl

theorem pollWrite_kept (env : GateEnv) (data : Bytes) (p : PeerGrantGate γ) :
    LifeKept (p.life.pollEnded env).2 (p.pollWrite codec env data).2.life := by
  unfold PeerGrantGate.pollWrite
  split
  · rename_i life h
    rw [h]
    exact lifeKept_refl life
  · rename_i life h
    rw [h]
    split
    · exact lifeKept_refl life
    · split
      · exact lifeKept_refl life
      · split
        · exact lifeKept_refl life
        · dsimp only
          split
          · split
            · exact ⟨fun _ h => h, fun _ h => h⟩
            · exact lifeKept_refl life
          · exact lifeKept_refl life

theorem step_lifeKept {c : GateCall} (h : s.step codec c = some s') :
    LifeKept s.gate.life s'.gate.life := by
  cases c with
  | read env remaining =>
    cases h
    have hl := pollRead_life env remaining s.gate
    change LifeKept s.gate.life (s.gate.pollRead env remaining).2.life
    rw [hl]
    exact pollEnded_kept env s.gate.life
  | write env data =>
    cases h
    exact (pollEnded_kept env s.gate.life).trans (pollWrite_kept env data s.gate)
  | shutdown =>
    cases h
    change LifeKept s.gate.life s.gate.pollShutdown.2.life
    unfold PeerGrantGate.pollShutdown
    split
    · split <;> exact lifeKept_refl _
    · exact lifeKept_refl _
  | recorded e =>
    cases h
    exact recordEnd_kept e s.gate.life

theorem reachable_lifeKept (hr : Reachable (GateRun.step codec) s t) :
    LifeKept s.gate.life t.gate.life := by
  refine reachable_invariant (P := fun t : GateRun γ => LifeKept s.gate.life t.gate.life) ?_
    (lifeKept_refl _) hr
  intro u c v hu h
  exact hu.trans (step_lifeKept h)

/-- What calls return once the grant ended. -/
def GateStep.afterEnd : GateStep γ → Bool
  | .read .eof | .write _ (.denied _) | .shutdown _ | .recorded _ => true
  | _ => false

/-- What calls return once the gate failed; the rest of the own prelude can still be read. -/
def GateStep.afterFailure : GateStep γ → Bool
  | .read .eof | .read (.denied _) | .read (.prelude _) => true
  | .write _ (.denied _) | .shutdown _ | .recorded _ => true
  | _ => false

def PeerGrantGate.hasFailed (p : PeerGrantGate γ) : Bool :=
  match p.gate with
  | some g => g.failed.isSome
  | none => false

theorem hasFailed_iff (p : PeerGrantGate γ) :
    p.hasFailed = true ↔ ∃ g why, p.gate = some g ∧ g.failed = some why := by
  unfold PeerGrantGate.hasFailed
  split
  · rename_i g hg
    rw [Option.isSome_iff_exists]
    constructor
    · rintro ⟨why, hw⟩
      exact ⟨g, why, hg, hw⟩
    · rintro ⟨g', why, hg', hw⟩
      rw [hg, Option.some.injEq] at hg'
      exact ⟨why, hg' ▸ hw⟩
  · rename_i hg
    simp [hg]

theorem afterEnd_step {c : GateCall} (he : s.gate.life.ended.isSome = true)
    (h : s.step codec c = some s') :
    ∃ st, s'.history = s.history ++ [st] ∧ st.afterEnd = true := by
  have hpoll : ∀ env, s.gate.life.pollEnded env = (true, s.gate.life) := by
    intro env
    simp [GrantLifetime.pollEnded, he]
  cases c with
  | read env remaining =>
    cases h
    exact ⟨_, rfl, by simp [hpoll, GateStep.afterEnd]⟩
  | write env data =>
    cases h
    exact ⟨_, rfl, by simp [hpoll, GateStep.afterEnd]⟩
  | shutdown =>
    cases h
    exact ⟨_, rfl, rfl⟩
  | recorded e =>
    cases h
    exact ⟨_, rfl, rfl⟩

/-- A failed gate stays, and its calls give nothing but the rest of the own prelude. -/
theorem afterFailure_move (hi : GateInv codec check s) (hf : s.gate.hasFailed = true)
    {p' : PeerGrantGate γ} (hm : GateMove codec s.gate p' st) :
    p'.hasFailed = true ∧ st.afterFailure = true := by
  obtain ⟨g, why, hg, hw⟩ := (hasFailed_iff s.gate).mp hf
  have hnv : g.verified = false := by
    by_contra hv
    have h := ((hi.gated g hg).verified (by simpa using hv)).1
    rw [hw] at h
    cases h
  have hsame : ∀ x, s.gate.gate = some x → x = g := by
    intro x hx
    rw [hg, Option.some.injEq] at hx
    exact hx.symm
  cases hm with
  | eof hg' he => exact ⟨(hasFailed_iff p').mpr ⟨g, why, hg'.trans hg, hw⟩, rfl⟩
  | endedWrite data error hg' he => exact ⟨(hasFailed_iff p').mpr ⟨g, why, hg'.trans hg, hw⟩, rfl⟩
  | openRead a ha hgn hg' =>
    rw [hg] at hgn
    cases hgn
  | prelude x n hx hpos hn ha hg' =>
    rw [hsame x hx] at hg'
    have hd : (g.advance n).done = false := by
      simp [Gate.done, Gate.advance, Gate.armDeadline, hnv]
    rw [hd] at hg'
    exact ⟨(hasFailed_iff p').mpr ⟨g.advance n, why, hg', hw⟩, rfl⟩
  | failedRead x why' error hx hxf hg' =>
    rw [hsame x hx] at hg'
    exact ⟨(hasFailed_iff p').mpr ⟨g.armDeadline, why, hg', hw⟩, rfl⟩
  | verifiedRead x a ha hx hpos hv hxf hg' =>
    rw [hsame x hx, hw] at hxf
    cases hxf
  | timeout x why' error hx hv hxf hg' =>
    rw [hsame x hx, hw] at hxf
    cases hxf
  | wait x hx hxf ha hg' =>
    rw [hsame x hx, hw] at hxf
    cases hxf
  | openWrite data a ha hgn hg' =>
    rw [hg] at hgn
    cases hgn
  | failedWrite x data why' error hx hxf hg' =>
    rw [hsame x hx] at hg'
    exact ⟨(hasFailed_iff p').mpr ⟨g, why, hg', hw⟩, rfl⟩
  | passWrite x data a ha hx hv hxf hg' =>
    rw [hsame x hx, hw] at hxf
    cases hxf
  | collect x data n ha hx hv hxf hn hlen hg' =>
    rw [hsame x hx, hw] at hxf
    cases hxf
  | verify x data n now peer ha hx hv hxf hlen hok hg' =>
    rw [hsame x hx, hw] at hxf
    cases hxf
  | refuse x data bytes why' error hx hv hxf hg' =>
    rw [hsame x hx, hw] at hxf
    cases hxf
  | closed x why' hx hv hxf hg' =>
    rw [hsame x hx, hw] at hxf
    cases hxf
  | shutdown hg' => exact ⟨(hasFailed_iff p').mpr ⟨g, why, hg'.trans hg, hw⟩, rfl⟩
  | recorded e hg' => exact ⟨(hasFailed_iff p').mpr ⟨g, why, hg'.trans hg, hw⟩, rfl⟩

/-- From a state that a condition keeps, every further step is of the given kind. -/
theorem run_kind {P : GateRun γ → Prop} (kind : GateStep γ → Bool)
    (hstep : ∀ u c v, P u → u.step codec c = some v →
      P v ∧ ∃ st, v.history = u.history ++ [st] ∧ kind st = true)
    (hs : P s) (hr : Reachable (GateRun.step codec) s t) :
    P t ∧ ∃ new, t.history = s.history ++ new ∧ ∀ st ∈ new, kind st = true := by
  refine reachable_invariant (P := fun t : GateRun γ =>
    P t ∧ ∃ new, t.history = s.history ++ new ∧ ∀ st ∈ new, kind st = true) ?_
    ⟨hs, [], by simp, by simp⟩ hr
  rintro u c v ⟨hu, new, hnew, hk⟩ h
  obtain ⟨hv, st, hst, hkind⟩ := hstep u c v hu h
  refine ⟨hv, new ++ [st], ?_, ?_⟩
  · rw [hst, hnew, List.append_assoc]
  · intro x hx
    rcases List.mem_append.mp hx with hx | hx
    · exact hk x hx
    · rw [List.mem_singleton] at hx
      exact hx ▸ hkind

theorem peer_grant_gate {ownExpiresAt : Option ℕ} {record : Option (Option GrantEnd)}
    (hr : Reachable (GateRun.step codec) (GateRun.init codec check ownExpiresAt record) s) :
    (∀ pre st post, s.history = pre ++ st :: post → st.passes = true →
      preludeLen codec ≤ (pre.flatMap GateStep.accepted).length ∧
      ∃ data n now peer,
        .write data (.verified n ((pre.flatMap GateStep.accepted).take (preludeLen codec)) now peer)
          ∈ pre ∧
        check.verify codec ((pre.flatMap GateStep.accepted).take (preludeLen codec)) now = .ok peer) ∧
    (∀ t, Reachable (GateRun.step codec) s t →
      (s.gate.life.ended.isSome = true →
        ∃ new, t.history = s.history ++ new ∧ ∀ st ∈ new, st.afterEnd = true) ∧
      (s.gate.hasFailed = true →
        (∃ new, t.history = s.history ++ new ∧ ∀ st ∈ new, st.afterFailure = true) ∧
        t.produced = [] ∧ t.received = [] ∧ t.sent <+: check.prelude codec)) ∧
    ∀ t, Reachable (GateRun.step codec) s t →
      (∀ why, s.gate.life.ended = some why → t.gate.life.ended = some why) ∧
      ∀ e, s.gate.life.record = some (some e) → t.gate.life.record = some (some e) := by
  have hi := reachable_gateInv hr
  refine ⟨hi.released, ?_, ?_⟩
  · intro t ht
    refine ⟨?_, ?_⟩
    · intro he
      refine (run_kind (P := fun u : GateRun γ => u.gate.life.ended.isSome = true) GateStep.afterEnd
        ?_ he ht).2
      intro u c v hu h
      refine ⟨?_, afterEnd_step hu h⟩
      obtain ⟨why, hw⟩ := Option.isSome_iff_exists.mp hu
      rw [(step_lifeKept h).ended why hw]
      rfl
    · intro hf
      have hrun := run_kind (P := fun u : GateRun γ =>
        GateInv codec check u ∧ u.gate.hasFailed = true) GateStep.afterFailure ?_ ⟨hi, hf⟩ ht
      · obtain ⟨⟨hti, htf⟩, hnew⟩ := hrun
        obtain ⟨g, why, hg, hw⟩ := (hasFailed_iff t.gate).mp htf
        have hgt := hti.gated g hg
        have hnv : g.verified = false := by
          by_contra hv
          have h := (hgt.verified (by simpa using hv)).1
          rw [hw] at h
          cases h
        refine ⟨hnew, hgt.produced_eq, (hgt.collecting hnv).1, ?_⟩
        rw [hgt.sent_eq, hgt.out_eq]
        exact List.take_prefix _ _
      · rintro u c v ⟨hu, huf⟩ h
        obtain ⟨st, hh, hm⟩ := gate_step h
        obtain ⟨hvf, hk⟩ := afterFailure_move hu huf hm
        exact ⟨⟨inv_move hu hh hm, hvf⟩, st, hh, hk⟩
  · intro t ht
    have hk := reachable_lifeKept ht
    exact ⟨hk.ended, hk.record⟩

end

/-- Grants in their wire form: channel, holder, direction, two bytes the gate does not read, expiry,
and a signature, here the operator's key twice. -/
def sampleCodec : GrantCodec Bytes where
  wireLen := 139
  encode := id
  decode b := if b.length = 139 then .ok b else .error "bad length"
  verifyStateless operator g now :=
    if g.drop 75 ≠ operator.toList ++ operator.toList then .error "bad signature"
    else if ofBeBytes32 (g.getD 71 0) (g.getD 72 0) (g.getD 73 0) (g.getD 74 0) ≤ UInt32.ofNat now then
      .error "expired"
    else .ok ()
  channel g := Vector.ofFn (fun i : Fin 32 => g.getD i 0)
  holder g := Vector.ofFn (fun i : Fin 32 => g.getD (32 + i) 0)
  direction g := if g.getD 64 0 = 0 then .initiate else .accept
  expiresAt g := (ofBeBytes32 (g.getD 71 0) (g.getD 72 0) (g.getD 73 0) (g.getD 74 0)).toNat

/-- A grant for channel 5 of the operator 9, to the holder `h`, until 2000. -/
def sampleGrant (h dir : UInt8) : Bytes :=
  List.replicate 32 5 ++ List.replicate 32 h ++ [dir, 0, 0, 0, 0, 0, 0, 0, 0, 7, 208] ++
    List.replicate 64 9

def sampleCheck (role : ChannelRole) : PeerGrantCheck Bytes :=
  match role with
  | .initiate => ⟨Vector.replicate 32 9, sampleGrant 1 0, Vector.replicate 32 2, .initiate, false⟩
  | .accept => ⟨Vector.replicate 32 9, sampleGrant 2 1, Vector.replicate 32 1, .accept, false⟩

/-- A moment at 1000 with nothing fired; the inner stream has two bytes and takes three. -/
def sampleEnv : GateEnv := ⟨false, none, none, false, 1000, .ready [65, 66], .ready 3⟩

/-- The peer's prelude in two writes, the second with three application bytes behind it, and the own
prelude in two reads; then bytes flow, until the grant is revoked. -/
def sampleCalls : List GateCall :=
  let prelude := (sampleCheck .accept).prelude sampleCodec
  [.write sampleEnv (prelude.take 100), .read sampleEnv 100,
    .write sampleEnv (prelude.drop 100 ++ [1, 2, 3]), .write sampleEnv [1, 2, 3],
    .read sampleEnv 100, .read sampleEnv 100,
    .read { sampleEnv with revoke := some (some "left") } 100]

def sampleGate (calls : List GateCall) : GateRun Bytes :=
  let start := GateRun.init sampleCodec (sampleCheck .initiate) (some 2000) (some none)
  (run (GateRun.step sampleCodec) start calls).getD start

theorem peer_grant_gate_sample :
    (sampleGate sampleCalls).produced = [65, 66] ∧ (sampleGate sampleCalls).received = [1, 2, 3] ∧
      (sampleGate sampleCalls).gate.life.ended = some "the channel grant was revoked: left" ∧
      ∀ t, Reachable (GateRun.step sampleCodec) (sampleGate sampleCalls) t →
        ∃ new, t.history = (sampleGate sampleCalls).history ++ new ∧
          ∀ st ∈ new, st.afterEnd = true := by
  have hr : Reachable (GateRun.step sampleCodec)
      (GateRun.init sampleCodec (sampleCheck .initiate) (some 2000) (some none))
      (sampleGate sampleCalls) := ⟨sampleCalls, by decide +kernel⟩
  refine ⟨by decide +kernel, by decide +kernel, by decide +kernel, ?_⟩
  intro t ht
  exact ((peer_grant_gate hr).2.1 t ht).1 (by decide +kernel)

/-- The peer closes before it presents a grant: the gate has failed, and the next read still returns
bytes, those of the own prelude. -/
theorem failed_gate_yields_prelude :
    (sampleGate [.shutdown]).gate.hasFailed = true ∧
      ((sampleGate [.shutdown]).gate.pollRead sampleEnv 10).1 =
        .prelude [67, 84, 80, 71, 49, 5, 5, 5, 5, 5] := by
  refine ⟨by decide +kernel, by decide +kernel⟩

end CtAgent.Channel
