import CtAgent.Channel.PeerGrantSafety

/-! Two members, each with a gate: what the session reads from one gate it writes into the other, in
chunks of any size. Behind the two preludes the pair is transparent. -/
namespace CtAgent.Channel
open CtAgent.Lib

inductive Side where
  | left | right
  deriving DecidableEq, Repr

/-- `toRight` was read from the left gate and is not yet taken by the right one. -/
structure GatePair (γ : Type*) where
  left : GateRun γ
  right : GateRun γ
  toRight : Bytes
  toLeft : Bytes
  deriving DecidableEq, Repr

/-- A write offers the first `len` bytes that are under way. -/
inductive PairCall where
  | read (side : Side) (env : GateEnv) (remaining : ℕ)
  | write (side : Side) (env : GateEnv) (len : ℕ)
  | shutdown (side : Side)
  | recorded (side : Side) (e : GrantEnd)
  deriving DecidableEq, Repr

namespace GateRun
variable {γ : Type*} (codec : GrantCodec γ)

def read (env : GateEnv) (remaining : ℕ) (s : GateRun γ) : GateStep γ × GateRun γ :=
  let (r, p) := s.gate.pollRead env remaining
  (.read r, ⟨p, s.history ++ [.read r]⟩)

def write (env : GateEnv) (data : Bytes) (s : GateRun γ) : GateStep γ × GateRun γ :=
  let (w, p) := s.gate.pollWrite codec env data
  (.write data w, ⟨p, s.history ++ [.write data w]⟩)

end GateRun

namespace GatePair
variable {γ : Type*} (codec : GrantCodec γ)

def init (checkL checkR : PeerGrantCheck γ) (ownL ownR : Option ℕ)
    (recordL recordR : Option (Option GrantEnd)) : GatePair γ :=
  ⟨GateRun.init codec checkL ownL recordL, GateRun.init codec checkR ownR recordR, [], []⟩

def step (s : GatePair γ) : PairCall → Option (GatePair γ)
  | .read .left env remaining =>
    let (st, l) := s.left.read env remaining
    some { s with left := l, toRight := s.toRight ++ st.sent }
  | .read .right env remaining =>
    let (st, r) := s.right.read env remaining
    some { s with right := r, toLeft := s.toLeft ++ st.sent }
  | .write .left env len =>
    let (st, l) := s.left.write codec env (s.toLeft.take len)
    some { s with left := l, toLeft := s.toLeft.drop st.accepted.length }
  | .write .right env len =>
    let (st, r) := s.right.write codec env (s.toRight.take len)
    some { s with right := r, toRight := s.toRight.drop st.accepted.length }
  | .shutdown .left => (s.left.step codec .shutdown).map (fun l => { s with left := l })
  | .shutdown .right => (s.right.step codec .shutdown).map (fun r => { s with right := r })
  | .recorded .left e => (s.left.step codec (.recorded e)).map (fun l => { s with left := l })
  | .recorded .right e => (s.right.step codec (.recorded e)).map (fun r => { s with right := r })

end GatePair

section
variable {γ : Type*} {codec : GrantCodec γ} {checkL checkR check : PeerGrantCheck γ}
  {s s' : GatePair γ} {a a' b b' : GateRun γ} {way way' : Bytes}

/-- One direction: nothing is lost or added between the two gates. -/
def Flow (a b : GateRun γ) (way : Bytes) : Prop := a.sent = b.accepted ++ way

theorem step_read (env : GateEnv) (remaining : ℕ) (a : GateRun γ) :
    a.step codec (.read env remaining) = some (a.read env remaining).2 := rfl

theorem step_write (env : GateEnv) (data : Bytes) (a : GateRun γ) :
    a.step codec (.write env data) = some (a.write codec env data).2 := rfl

theorem gateInv_step (hi : GateInv codec check a) {c : GateCall} (h : a.step codec c = some a') :
    GateInv codec check a' := by
  obtain ⟨st, hh, hm⟩ := gate_step h
  exact inv_move hi hh hm

theorem accepted_of_data (codec : GrantCodec γ) (env : GateEnv) (data : Bytes) (b : GateRun γ) :
    (b.write codec env data).1.accepted <+: data := by
  have hm : GateMove codec _ _ _ := pollWrite_move env data b.gate
  simp only [GateRun.write]
  cases hw : (b.gate.pollWrite codec env data).1 with
  | denied error => exact List.nil_prefix
  | collected n => exact List.take_prefix n data
  | verified n prelude now peer => exact List.take_prefix n data
  | inner data' a =>
    rw [hw] at hm
    have hd : data' = data := by cases hm <;> rfl
    subst hd
    cases a with
    | pending => exact List.nil_prefix
    | error why => exact List.nil_prefix
    | ready n => exact List.take_prefix n data'

theorem flow_read (h : Flow a b way) (env : GateEnv) (remaining : ℕ) :
    Flow (a.read env remaining).2 b (way ++ (a.read env remaining).1.sent) := by
  have hs : (a.read env remaining).2.sent = a.sent ++ (a.read env remaining).1.sent :=
    sent_append rfl
  rw [Flow, hs, h, List.append_assoc]

theorem flow_write (h : Flow a b way) (env : GateEnv) (len : ℕ) :
    Flow a (b.write codec env (way.take len)).2
      (way.drop (b.write codec env (way.take len)).1.accepted.length) := by
  have hw : way.take len <+: way := List.take_prefix len way
  have hp := (accepted_of_data codec env (way.take len) b).trans hw
  have ha : (b.write codec env (way.take len)).2.accepted =
      b.accepted ++ (b.write codec env (way.take len)).1.accepted := accepted_append rfl
  rw [Flow, ha, h, List.append_assoc]
  congr 1
  exact (List.prefix_iff_eq_append.mp hp).symm

/-- A write into `a` changes nothing it sent, and a read from `b` nothing it accepted. -/
theorem flow_other_write (h : Flow a b way) (env : GateEnv) (data : Bytes) :
    Flow (a.write codec env data).2 b way := by
  have hs : (a.write codec env data).2.sent = a.sent ++ (a.write codec env data).1.sent :=
    sent_append rfl
  exact (hs.trans (List.append_nil _)).trans h

theorem flow_other_read (h : Flow a b way) (env : GateEnv) (remaining : ℕ) :
    Flow a (b.read env remaining).2 way := by
  have ha : (b.read env remaining).2.accepted = b.accepted ++ (b.read env remaining).1.accepted :=
    accepted_append rfl
  rw [Flow, ha.trans (List.append_nil _)]
  exact h

/-- A shutdown or a recorded end moves no bytes. -/
theorem still_step {c : GateCall} (hc : c = .shutdown ∨ ∃ e, c = .recorded e)
    (h : a.step codec c = some a') : a'.sent = a.sent ∧ a'.accepted = a.accepted := by
  rcases hc with rfl | ⟨e, rfl⟩
  · cases h
    exact ⟨(sent_append rfl).trans (List.append_nil _), (accepted_append rfl).trans (List.append_nil _)⟩
  · cases h
    exact ⟨(sent_append rfl).trans (List.append_nil _), (accepted_append rfl).trans (List.append_nil _)⟩

structure PairInv (codec : GrantCodec γ) (checkL checkR : PeerGrantCheck γ) (s : GatePair γ) :
    Prop where
  left : GateInv codec checkL s.left
  right : GateInv codec checkR s.right
  toRight : Flow s.left s.right s.toRight
  toLeft : Flow s.right s.left s.toLeft

theorem pairInv_still_left (hi : PairInv codec checkL checkR s) {c : GateCall}
    (hc : c = .shutdown ∨ ∃ e, c = .recorded e) {l : GateRun γ}
    (h : s.left.step codec c = some l) : PairInv codec checkL checkR { s with left := l } := by
  obtain ⟨hs, ha⟩ := still_step hc h
  refine ⟨gateInv_step hi.left h, hi.right, hs.trans hi.toRight, ?_⟩
  rw [Flow, ha]
  exact hi.toLeft

theorem pairInv_still_right (hi : PairInv codec checkL checkR s) {c : GateCall}
    (hc : c = .shutdown ∨ ∃ e, c = .recorded e) {r : GateRun γ}
    (h : s.right.step codec c = some r) : PairInv codec checkL checkR { s with right := r } := by
  obtain ⟨hs, ha⟩ := still_step hc h
  refine ⟨hi.left, gateInv_step hi.right h, ?_, hs.trans hi.toLeft⟩
  rw [Flow, ha]
  exact hi.toRight

theorem pairInv_step (hi : PairInv codec checkL checkR s) {c : PairCall}
    (h : s.step codec c = some s') : PairInv codec checkL checkR s' := by
  cases c with
  | read side env remaining =>
    cases side with
    | left =>
      cases h
      exact ⟨gateInv_step hi.left (step_read env remaining s.left), hi.right,
        flow_read hi.toRight env remaining, flow_other_read hi.toLeft env remaining⟩
    | right =>
      cases h
      exact ⟨hi.left, gateInv_step hi.right (step_read env remaining s.right),
        flow_other_read hi.toRight env remaining, flow_read hi.toLeft env remaining⟩
  | write side env len =>
    cases side with
    | left =>
      cases h
      exact ⟨gateInv_step hi.left (step_write env _ s.left), hi.right,
        flow_other_write hi.toRight env _, flow_write hi.toLeft env len⟩
    | right =>
      cases h
      exact ⟨hi.left, gateInv_step hi.right (step_write env _ s.right),
        flow_write hi.toRight env len, flow_other_write hi.toLeft env _⟩
  | shutdown side =>
    cases side with
    | left =>
      simp only [GatePair.step, Option.map_eq_some_iff] at h
      obtain ⟨l, hl, rfl⟩ := h
      exact pairInv_still_left hi (Or.inl rfl) hl
    | right =>
      simp only [GatePair.step, Option.map_eq_some_iff] at h
      obtain ⟨r, hr, rfl⟩ := h
      exact pairInv_still_right hi (Or.inl rfl) hr
  | recorded side e =>
    cases side with
    | left =>
      simp only [GatePair.step, Option.map_eq_some_iff] at h
      obtain ⟨l, hl, rfl⟩ := h
      exact pairInv_still_left hi (Or.inr ⟨e, rfl⟩) hl
    | right =>
      simp only [GatePair.step, Option.map_eq_some_iff] at h
      obtain ⟨r, hr, rfl⟩ := h
      exact pairInv_still_right hi (Or.inr ⟨e, rfl⟩) hr

theorem reachable_pairInv {ownL ownR : Option ℕ} {recordL recordR : Option (Option GrantEnd)}
    (hr : Reachable (GatePair.step codec)
      (GatePair.init codec checkL checkR ownL ownR recordL recordR) s) :
    PairInv codec checkL checkR s := by
  refine reachable_invariant (fun s c s' hi h => pairInv_step hi h) ?_ hr
  exact ⟨gateInv_init checkL ownL recordL, gateInv_init checkR ownR recordR, rfl, rfl⟩

theorem prelude_length (hw : ∀ g, (codec.encode g).length = codec.wireLen)
    (check : PeerGrantCheck γ) : (check.prelude codec).length = preludeLen codec := by
  rw [PeerGrantCheck.prelude, List.length_append, hw, preludeLen]

/-- The session reads the own prelude once and whole before the first inner byte. -/
theorem outgoing (hi : GateInv codec check a) :
    ∃ k ≤ (check.prelude codec).length, a.sent = (check.prelude codec).take k ++ a.produced ∧
      (a.produced ≠ [] → k = (check.prelude codec).length) := by
  cases hg : a.gate.gate with
  | none =>
    refine ⟨(check.prelude codec).length, Nat.le_refl _, ?_, fun _ => rfl⟩
    rw [List.take_length]
    exact (hi.opened hg).sent_eq
  | some g =>
    have h := hi.gated g hg
    refine ⟨g.outPos, ?_, ?_, ?_⟩
    · rw [← h.out_eq]
      exact h.pos_le
    · rw [h.sent_eq, h.out_eq, h.produced_eq, List.append_nil]
    · intro hp
      exact absurd h.produced_eq hp

theorem failed_none (hf : b.gate.hasFailed = false) {g : Gate γ} (hg : b.gate.gate = some g) :
    g.failed = none := by
  by_contra hne
  obtain ⟨why, hw⟩ := Option.ne_none_iff_exists'.mp hne
  have h := (hasFailed_iff b.gate).mpr ⟨g, why, hg, hw⟩
  rw [hf] at h
  cases h

/-- What the inner stream got is what came behind the peer's prelude. -/
theorem incoming (hi : GateInv codec check b) (hf : b.gate.hasFailed = false) :
    b.received = b.accepted.drop (preludeLen codec) := by
  have hsplit : ∀ peer, peer.length = preludeLen codec → b.accepted = peer ++ b.received →
      b.received = b.accepted.drop (preludeLen codec) := by
    intro peer hlen ha
    conv_rhs => rw [ha, ← hlen, List.drop_left]
  cases hg : b.gate.gate with
  | none =>
    obtain ⟨peer, h1, h2, -⟩ := (hi.opened hg).accepted_eq
    exact hsplit peer h1 h2
  | some g =>
    have h := hi.gated g hg
    by_cases hv : g.verified = true
    · obtain ⟨-, -, h1, h2, -⟩ := h.verified hv
      exact hsplit g.peer h1 h2
    · obtain ⟨h1, h2⟩ := h.collecting (by simpa using hv)
      obtain ⟨h3, h4⟩ := h2 (failed_none hf hg)
      rw [h1, h3, List.drop_of_length_le (Nat.le_of_lt h4)]

/-- One direction of the pair, from the inner stream behind `a` to the one behind `b`, with `way`
between them. `progress`: a chunk of `way` that is offered to `b` is taken at least in part. -/
structure Transparent (codec : GrantCodec γ) (checkA checkB : PeerGrantCheck γ) (a b : GateRun γ)
    (way : Bytes) : Prop where
  outgoing : ∃ k ≤ preludeLen codec, a.sent = (checkA.prelude codec).take k ++ a.produced ∧
    (a.produced ≠ [] → k = preludeLen codec)
  collected : b.accepted.take (preludeLen codec) <+: checkA.prelude codec
  delivered : a.produced = b.received ++ way.drop (preludeLen codec - b.accepted.length)
  arrived : way = [] → b.received = a.produced
  progress : ∀ env len peer, (b.gate.life.pollEnded env).1 = false →
    checkB.verify codec (checkA.prelude codec) env.now = .ok peer →
    (∃ n, env.innerWrite = .ready (n + 1)) → way.take len ≠ [] →
    (b.write codec env (way.take len)).1.accepted ≠ []

theorem sent_take_prelude (hw : ∀ g, (codec.encode g).length = codec.wireLen)
    (hi : GateInv codec check a) : a.sent.take (preludeLen codec) <+: check.prelude codec ∧
      a.produced = a.sent.drop (preludeLen codec) := by
  obtain ⟨k, hk, hs, hp⟩ := outgoing hi
  have hlen := prelude_length hw check
  by_cases hz : a.produced = []
  · rw [hz, List.append_nil] at hs
    have hle : a.sent.length ≤ preludeLen codec := by
      rw [hs, List.length_take]
      omega
    refine ⟨?_, ?_⟩
    · rw [List.take_of_length_le hle, hs]
      exact List.take_prefix _ _
    · rw [hz, List.drop_of_length_le hle]
  · have hk' := hp hz
    rw [hk', List.take_length] at hs
    refine ⟨?_, ?_⟩
    · rw [hs, ← hlen, List.take_left]
    · conv_rhs => rw [hs, ← hlen, List.drop_left]

theorem take_ne_nil {data : Bytes} {n : ℕ} (hd : data ≠ []) (hn : 0 < n) : data.take n ≠ [] := by
  intro h
  rcases List.take_eq_nil_iff.mp h with h | h
  · omega
  · exact hd h

/-- The collector's bytes, once there are enough of them, are the other member's prelude. -/
theorem collector_eq_prelude (hw : ∀ g, (codec.encode g).length = codec.wireLen)
    (hi : GateInv codec check a) (hflow : Flow a b way) {peer data : Bytes} {n : ℕ}
    (ha : b.accepted = peer) (hd : data <+: way)
    (hlen : (peer ++ data.take n).length = preludeLen codec) :
    peer ++ data.take n = check.prelude codec := by
  have hn : data.take n <+: data := List.take_prefix n data
  have hpre : peer ++ data.take n <+: a.sent := by
    rw [hflow, ha]
    exact (List.prefix_append_right_inj peer).mpr (hn.trans hd)
  have htake : peer ++ data.take n = a.sent.take (preludeLen codec) := by
    rw [← hlen]
    exact List.prefix_iff_eq_take.mp hpre
  rw [htake]
  refine List.IsPrefix.eq_of_length (sent_take_prelude hw hi).1 ?_
  rw [← htake, hlen, prelude_length hw]

theorem write_progress (hw : ∀ g, (codec.encode g).length = codec.wireLen)
    {checkA checkB : PeerGrantCheck γ} (hA : GateInv codec checkA a) (hB : GateInv codec checkB b)
    (hflow : Flow a b way) (hf : b.gate.hasFailed = false) {env : GateEnv} {data : Bytes} {peer : γ}
    (hlive : (b.gate.life.pollEnded env).1 = false)
    (hok : checkB.verify codec (checkA.prelude codec) env.now = .ok peer)
    (hin : ∃ n, env.innerWrite = .ready (n + 1)) (hd : data ≠ []) (hway : data <+: way) :
    (b.write codec env data).1.accepted ≠ [] := by
  obtain ⟨k, hin⟩ := hin
  have hpos : 0 < data.length := List.length_pos_iff.mpr hd
  have hinner : (GateStep.write (γ := γ) data
      (.inner data (PeerGrantGate.innerWrite env data))).accepted ≠ [] := by
    simp only [PeerGrantGate.innerWrite, hin, GateStep.accepted]
    exact take_ne_nil hd (by omega)
  simp only [GateRun.write, PeerGrantGate.pollWrite]
  have hpe : b.gate.life.pollEnded env = (false, (b.gate.life.pollEnded env).2) :=
    Prod.ext hlive rfl
  rw [hpe]
  cases hg : b.gate.gate with
  | none => exact hinner
  | some g =>
    have hgf := failed_none hf hg
    have hgi := hB.gated g hg
    simp only [hgf]
    by_cases hv : g.verified = true
    · simp only [hv, ↓reduceIte]
      exact hinner
    · simp only [hv, Bool.false_eq_true, ↓reduceIte]
      obtain ⟨-, h2⟩ := hgi.collecting (by simpa using hv)
      obtain ⟨hacc, hlt⟩ := h2 hgf
      have hn : 0 < min data.length (preludeLen codec - g.peer.length) := by omega
      split
      · rename_i hlen
        have heq := collector_eq_prelude hw hA hflow hacc hway hlen
        split
        · exact take_ne_nil hd hn
        · rename_i why herr
          have herr : g.check.verify codec (checkA.prelude codec) env.now = .error why := by
            rw [← heq]
            exact herr
          rw [hgi.check_eq, hok] at herr
          cases herr
      · exact take_ne_nil hd hn

theorem transparent (hw : ∀ g, (codec.encode g).length = codec.wireLen)
    {checkA checkB : PeerGrantCheck γ} (hA : GateInv codec checkA a) (hB : GateInv codec checkB b)
    (hflow : Flow a b way) (hf : b.gate.hasFailed = false) :
    Transparent codec checkA checkB a b way := by
  obtain ⟨hpre, hprod⟩ := sent_take_prelude hw hA
  have hdel : a.produced = b.received ++ way.drop (preludeLen codec - b.accepted.length) := by
    rw [hprod, hflow, List.drop_append, incoming hB hf]
  refine ⟨?_, ?_, hdel, ?_, ?_⟩
  · have h := outgoing hA
    rwa [prelude_length hw] at h
  · refine List.IsPrefix.trans ?_ hpre
    rw [hflow, List.take_append]
    exact List.prefix_append _ _
  · intro hz
    rw [hdel, hz, List.drop_nil, List.append_nil]
  · intro env len peer hlive hok hin hd
    have hway : way.take len <+: way := List.take_prefix len way
    exact write_progress hw hA hB hflow hf hlive hok hin hd hway

/-- Two gates that have not refused each other are transparent in both directions. -/
theorem peer_grant_pair_transparent (hw : ∀ g, (codec.encode g).length = codec.wireLen)
    {ownL ownR : Option ℕ} {recordL recordR : Option (Option GrantEnd)}
    (hr : Reachable (GatePair.step codec)
      (GatePair.init codec checkL checkR ownL ownR recordL recordR) s)
    (hl : s.left.gate.hasFailed = false) (hrr : s.right.gate.hasFailed = false) :
    Transparent codec checkL checkR s.left s.right s.toRight ∧
      Transparent codec checkR checkL s.right s.left s.toLeft := by
  have hi := reachable_pairInv hr
  exact ⟨transparent hw hi.left hi.right hi.toRight hrr, transparent hw hi.right hi.left hi.toLeft hl⟩

end

/-- Grants of exactly the wire length, for the pair below. -/
def sampleWire : GrantCodec { b : Bytes // b.length = 139 } where
  wireLen := 139
  encode g := g.1
  decode b := if h : b.length = 139 then .ok ⟨b, h⟩ else .error "bad length"
  verifyStateless operator g now := sampleCodec.verifyStateless operator g.1 now
  channel g := sampleCodec.channel g.1
  holder g := sampleCodec.holder g.1
  direction g := sampleCodec.direction g.1
  expiresAt g := sampleCodec.expiresAt g.1

def sampleMember (role : ChannelRole) : PeerGrantCheck { b : Bytes // b.length = 139 } :=
  match role with
  | .initiate =>
    ⟨Vector.replicate 32 9, ⟨sampleGrant 1 0, rfl⟩, Vector.replicate 32 2, .initiate, false⟩
  | .accept =>
    ⟨Vector.replicate 32 9, ⟨sampleGrant 2 1, rfl⟩, Vector.replicate 32 1, .accept, false⟩

/-- The left prelude crosses in uneven chunks before the right one is read; then the left inner
stream's two bytes cross one by one. -/
def samplePairCalls : List PairCall :=
  [.read .left sampleEnv 100, .write .right sampleEnv 1, .read .left sampleEnv 100,
    .write .right sampleEnv 500, .read .right sampleEnv 500, .write .left sampleEnv 500,
    .read .left sampleEnv 2, .write .right sampleEnv 1, .write .right sampleEnv 0,
    .write .right sampleEnv 9]

def samplePair : GatePair { b : Bytes // b.length = 139 } :=
  let start := GatePair.init sampleWire (sampleMember .initiate) (sampleMember .accept) (some 2000)
    (some 2000) none none
  (run (GatePair.step sampleWire) start samplePairCalls).getD start

theorem peer_grant_pair_transparent_sample :
    samplePair.left.produced = [65, 66] ∧ samplePair.toRight = [] ∧
      samplePair.right.received = samplePair.left.produced := by
  have hr : Reachable (GatePair.step sampleWire) (GatePair.init sampleWire (sampleMember .initiate)
      (sampleMember .accept) (some 2000) (some 2000) none none) samplePair :=
    ⟨samplePairCalls, by decide +kernel⟩
  have ht := peer_grant_pair_transparent (fun g => g.2) hr (by decide +kernel) (by decide +kernel)
  have hz : samplePair.toRight = [] := by decide +kernel
  exact ⟨by decide +kernel, hz, ht.1.arrived hz⟩

end CtAgent.Channel
