import CtAgent.Serve.DirectListener

/-! What one step of the direct listener can do, and from it what holds in every run: who reaches the
Origin, what the counters say, and how long a slot is held. -/
namespace CtAgent.Serve.Direct
open CtAgent.Lib CtAgent.Lib.ByteSource CtAgent.Codec

section Token

theorem parse_token_iff (payload t : Bytes) :
    parseDirectHandshakePayload payload = .token t ↔
      payload = directHsPayloadTokenV1 :: t ∧ payload.length = directHsPayloadTokenV1Len := by
  cases payload with
  | nil => simp [parseDirectHandshakePayload]
  | cons tag rest =>
    by_cases htag : tag = directHsPayloadTokenV1
    · by_cases hlen : (tag :: rest).length = directHsPayloadTokenV1Len
      · simp only [parseDirectHandshakePayload, htag, if_true, ne_eq, htag ▸ hlen, not_true_eq_false,
          if_false, DirectHandshakePayload.token.injEq, List.cons.injEq, true_and, and_true]
      · simp only [parseDirectHandshakePayload, htag, if_true, ne_eq, htag ▸ hlen, not_false_eq_true,
          reduceCtorEq, and_false]
    · simp [parseDirectHandshakePayload, htag]

theorem parse_legacy_iff (payload : Bytes) :
    parseDirectHandshakePayload payload = .legacy ↔ payload.head? ≠ some directHsPayloadTokenV1 := by
  cases payload with
  | nil => simp [parseDirectHandshakePayload]
  | cons tag rest =>
    simp only [parseDirectHandshakePayload, List.head?_cons, ne_eq, Option.some.injEq]
    split
    · split <;> simp_all
    · simp_all

/-- The payload names the tunnel's own token, or carries none where none is required. -/
def DirectTokenPolicy.Admits (P : DirectTokenPolicy) (payload : Bytes) : Prop :=
  payload = directHsPayloadTokenV1 :: P.ownToken ∧ payload.length = directHsPayloadTokenV1Len ∨
    P.requireToken = false ∧ payload.head? ≠ some directHsPayloadTokenV1

/-- No refusal line is an admitted payload under a clear flag. -/
theorem DirectTokenPolicy.decide_admits (P : DirectTokenPolicy) (revoked : Bool) (payload : Bytes) :
    (P.decide revoked (parseDirectHandshakePayload payload)).refusalLine = none ↔
      revoked = false ∧ P.Admits payload := by
  have htoken := parse_token_iff payload
  have hlegacy := parse_legacy_iff payload
  unfold DirectTokenPolicy.Admits DirectTokenPolicy.decide
  cases revoked with
  | true => simp [DirectTokenDecision.refusalLine]
  | false =>
    cases hp : parseDirectHandshakePayload payload with
    | legacy =>
      have hhead := hlegacy.mp hp
      have hne : payload ≠ directHsPayloadTokenV1 :: P.ownToken := by
        rintro rfl
        exact hhead rfl
      cases hr : P.requireToken with
      | true => simp [DirectTokenDecision.refusalLine, hne]
      | false => simp [DirectTokenDecision.refusalLine, hhead]
    | token t =>
      obtain ⟨rfl, hlen⟩ := (htoken t).mp hp
      have heq : ctEq t P.ownToken = true ↔ t = P.ownToken := ctEq_iff t P.ownToken
      by_cases ht : t = P.ownToken
      · subst ht
        simp [heq.mpr rfl, DirectTokenDecision.refusalLine, ← hlen]
      · have hf : ctEq t P.ownToken = false := Bool.eq_false_iff.mpr (fun h => ht (heq.mp h))
        simp [hf, DirectTokenDecision.refusalLine, ht]
    | malformed =>
      have h1 : ¬ payload.head? ≠ some directHsPayloadTokenV1 := by
        intro h
        rw [hlegacy.mpr h] at hp
        cases hp
      have h2 : ¬ (payload = directHsPayloadTokenV1 :: P.ownToken ∧
          payload.length = directHsPayloadTokenV1Len) := by
        intro h
        rw [(htoken _).mpr h] at hp
        cases hp
      simp [DirectTokenDecision.refusalLine, h1, h2]

theorem DirectTokenPolicy.decide_legacy {P : DirectTokenPolicy} {revoked : Bool}
    {payload : DirectHandshakePayload} (h : P.decide revoked payload = .serveLegacy) :
    P.requireToken = false := by
  unfold DirectTokenPolicy.decide at h
  cases hr : P.requireToken with
  | false => rfl
  | true =>
    rw [hr] at h
    split at h
    · cases h
    · cases payload with
      | legacy => cases h
      | malformed => cases h
      | token t =>
        dsimp only at h
        split at h <;> cases h

end Token

section
variable {κ σ ν ι : Type} [ByteSource σ] {C : Config κ ν} {revoked : Bool} {now : ℕ} {p q : Phase ν}
  {e : ConnEvent σ ν} {ns : List Note}

/-- The transitions of a connection's task. -/
inductive Config.Move (C : Config κ ν) (revoked : Bool) (now : ℕ) :
    Phase ν → ConnEvent σ ν → Phase ν → List Note → Prop
  | begin : C.Move revoked now .spawned .begin (.setup (now + C.limits.setupTimeout)) []
  | streams (d : ℕ) : C.Move revoked now (.setup d) (.streams true) (.message1 d) []
  | unstreamed (d : ℕ) : C.Move revoked now (.setup d) (.streams false) (.finished .dropped) []
  | dropped (d : ℕ) : C.Move revoked now (.setup d) .setupTimeout (.finished .dropped) []
  | unread (d : ℕ) (read : Option Bytes) :
    C.Move revoked now (.message1 d) (.message1 read) (.finished .failed) C.failed
  | refused (d : ℕ) (m1 : Bytes) (decision : DirectTokenDecision) :
    C.Move revoked now (.message1 d) (.message1 (some m1)) (.finished (.refused decision))
      (.directRefused :: C.failed)
  | judged (d : ℕ) (m1 : Bytes) (hs : ν) (payload : Bytes) (ns : List Note) (hlate : now < d)
      (hmsg : C.originHandshakeAnyWithPayload m1 = some (hs, payload)) (hclear : revoked = false)
      (hadmits : C.policy.Admits payload)
      (hns : ns = [] ∨ ns = [.directLegacyServed] ∧ C.policy.requireToken = false) :
    C.Move revoked now (.message1 d) (.message1 (some m1)) (.message2 d hs) ns
  | unwritten (d : ℕ) (hs : ν) (written : Bool) :
    C.Move revoked now (.message2 d hs) (.message2 written) (.finished .failed) C.failed
  | opened (d : ℕ) (hs : ν) (htcp : C.proto = .tcp) (hlate : now < d) :
    C.Move revoked now (.message2 d hs) (.message2 true) (.gate d hs) [.tunnelsOpened]
  | lifted (d : ℕ) (hs : ν) (hudp : C.proto = .udp) :
    C.Move revoked now (.message2 d hs) (.message2 true) .dialing []
  | gateRefused (d : ℕ) (transport : ν) (E : NoiseEnv σ ν) (client : σ) :
    C.Move revoked now (.gate d transport) (.gate E client) (.finished .ended) []
  | gateClosed (d : ℕ) (transport : ν) (E : NoiseEnv σ ν) (client : σ) :
    C.Move revoked now (.gate d transport) (.gate E client) (.lingering (now + C.limits.linger)) []
  | gatePassed (d : ℕ) (transport : ν) (E : NoiseEnv σ ν) (client : σ) (first : Option Bytes) (transport' : ν)
      (client' : σ) (hlate : now < d ∨ C.mode = .off)
      (hgate : runLocalAuthGate C.mode E transport client = .ok (.proceed first transport' client')) :
    C.Move revoked now (.gate d transport) (.gate E client) .dialing []
  | dialed : C.Move revoked now .dialing (.dial true) .relaying []
  | undialed : C.Move revoked now .dialing (.dial false) (.finished .ended) []
  | relayed : C.Move revoked now .relaying (.relayed true) (.lingering (now + C.limits.linger)) []
  | broken : C.Move revoked now .relaying (.relayed false) (.finished .ended) []
  | closed (u : ℕ) : C.Move revoked now (.lingering u) .closed (.finished .closed) []
  | served (u : ℕ) : C.Move revoked now (.lingering u) .lingerTimeout (.finished .served) []

/-- A message 1 that was read in time: no key, a refusal, or admitted. -/
theorem Config.judge_move (C : Config κ ν) (revoked : Bool) {d : ℕ} (hlate : now < d) (m1 : Bytes) :
    C.Move (σ := σ) revoked now (.message1 d) (.message1 (some m1)) (C.judge revoked d m1).1
      (C.judge revoked d m1).2 := by
  unfold Config.judge
  split
  · exact .unread d _
  · rename_i hs payload hmsg
    have hadmits := C.policy.decide_admits revoked payload
    dsimp only
    split
    · exact .refused d m1 _
    · rename_i hline
      rw [Bool.not_eq_true, Option.isSome_eq_false_iff, Option.isNone_iff_eq_none] at hline
      obtain ⟨hclear, hadmits⟩ := hadmits.mp hline
      apply Config.Move.judged d m1 hs payload _ hlate hmsg hclear hadmits
      split
      · rename_i hlegacy
        exact .inr ⟨rfl, DirectTokenPolicy.decide_legacy hlegacy⟩
      · exact .inl rfl

theorem Config.advance_move (h : C.advance revoked now p e = some (q, ns)) : C.Move revoked now p e q ns := by
  unfold Config.advance at h
  split at h
  · cases h
    exact .begin
  · cases h
    exact .streams _
  · cases h
    exact .unstreamed _
  · split at h
    · cases h
      exact .dropped _
    · cases h
  · rename_i d read
    split at h
    · cases h
      exact .unread d read
    · rename_i m1 hread
      have hlate : now < d := by
        by_contra hn
        rw [if_pos (Nat.le_of_not_lt hn)] at hread
        cases hread
      rw [if_neg (Nat.not_le_of_lt hlate)] at hread
      subst hread
      have hm := C.judge_move (σ := σ) revoked hlate m1
      rw [Option.some.inj h] at hm
      exact hm
  · rename_i d hs written
    split at h
    · cases h
      exact .unwritten d hs written
    · rename_i hin
      obtain ⟨hlate, hw⟩ := not_or.mp hin
      have hlate : now < d := Nat.lt_of_not_le hlate
      obtain rfl : written = true := Bool.eq_true_of_not_eq_false hw
      split at h
      · rename_i htcp
        cases h
        exact .opened d hs htcp hlate
      · rename_i hudp
        cases h
        exact .lifted d hs hudp
  · rename_i d transport E client
    split at h
    · cases h
      exact .gateRefused d transport E client
    · cases h
      exact .gateClosed d transport E client
    · rename_i first transport' client' hgate
      cases h
      unfold gateWithin at hgate
      split at hgate
      · cases hgate
      · rename_i hlate
        refine .gatePassed d transport E client first transport' client' ?_ hgate
        by_cases hoff : C.mode = .off
        · exact .inr hoff
        · left
          simpa [hoff] using hlate
  · rename_i connected
    cases connected with
    | true =>
      cases h
      exact .dialed
    | false =>
      cases h
      exact .undialed
  · rename_i ok
    cases ok with
    | true =>
      cases h
      exact .relayed
    | false =>
      cases h
      exact .broken
  · cases h
    exact .closed _
  · split at h
    · cases h
      exact .served _
    · cases h
  · cases h

/-- The Client showed the gate a credential it takes, in the first frame of its session. -/
def CredentialShown (mode : GateMode) (E : NoiseEnv σ ν) (transport : ν) (client : σ) : Prop :=
  match mode with
  | .off => True
  | .http => ∃ request transport' client',
    readGateMessage E transport client = .ok (request, transport', client') ∧
      E.localAuth.http request = .proceed
  | .textChallenge => ∃ attempt transport' client',
    readGateMessage E transport client = .ok (attempt, transport', client') ∧
      E.localAuth.password (trimTrailingLineEnding attempt) = true

theorem credentialShown_of_proceed {mode : GateMode} {E : NoiseEnv σ ν} {transport transport' : ν}
    {client client' : σ} {first : Option Bytes}
    (h : runLocalAuthGate mode E transport client = .ok (.proceed first transport' client')) :
    CredentialShown mode E transport client := by
  cases mode with
  | off => exact trivial
  | http =>
    cases hread : readGateMessage E transport client with
    | error m => simp [runLocalAuthGate, hread] at h
    | ok r =>
      obtain ⟨request, transport₁, client₁⟩ := r
      cases hv : E.localAuth.http request with
      | proceed => exact ⟨request, transport₁, client₁, hread, hv⟩
      | redirect response =>
        simp only [runLocalAuthGate, hread, hv] at h
        split at h <;> cases h
      | rejected text => simp [runLocalAuthGate, hread, hv] at h
  | textChallenge =>
    cases hw : E.gateWrite with
    | some m => simp [runLocalAuthGate, hw] at h
    | none =>
      cases hread : readGateMessage E transport client with
      | error m => simp [runLocalAuthGate, hw, hread] at h
      | ok r =>
        obtain ⟨attempt, transport₁, client₁⟩ := r
        simp only [runLocalAuthGate, hw, hread] at h
        split at h
        · rename_i hok
          exact ⟨attempt, transport₁, client₁, hread, hok⟩
        · cases h

end

section
variable {κ σ ν ι : Type} [ByteSource σ] [DecidableEq ι] {C : Config κ ν} {s t : Listener ι ν}
  {e : Event ι σ ν} {i : ℕ} {c' : Conn ν}

/-- The steps of the listener. -/
inductive Listener.Step (C : Config κ ν) (s : Listener ι ν) : Event ι σ ν → Listener ι ν → Prop
  | tick (d : ℕ) : s.Step C (.tick d) { s with now := s.now + d }
  | registration (j : ι) (o : RegistrationOutcome) :
    s.Step C (.registration j o) { s with loops := s.loops.apply (j, o) }
  | refused (hfull : C.limits.maxConnections ≤ (s.conns.map Conn.reap).countP (fun c => !c.reaped)) :
    s.Step C .incoming { s with
      conns := s.conns.map Conn.reap
      metrics := { s.metrics with refusedAtCapacity := s.metrics.refusedAtCapacity + 1 } }
  | accepted (hfree : (s.conns.map Conn.reap).countP (fun c => !c.reaped) < C.limits.maxConnections) :
    s.Step C .incoming { s with
      conns := s.conns.map Conn.reap ++ [{ acceptedAt := s.now, phase := .spawned }] }
  | reap (i : ℕ) (c : Conn ν) (hc : s.conns[i]? = some c) (hfinished : c.phase.isFinished = true) :
    s.Step C (.reap i) { s with conns := s.conns.set i { c with reaped := true } }
  | conn (i : ℕ) (c : Conn ν) (ce : ConnEvent σ ν) (q : Phase ν) (ns : List Note) (hc : s.conns[i]? = some c)
      (hmove : C.Move s.loops.view.revoked s.now c.phase ce q ns) :
    s.Step C (.conn i ce) { s with conns := s.conns.set i { c with phase := q }, metrics := s.metrics.note ns }
  | loopEnds : s.Step C .loopEnds { s with
      running := false
      conns := s.conns.map (fun c => { c with phase := c.phase.abort, reaped := true }) }
  | ensureRunning : s.Step C .ensureRunning { s with running := true }

theorem Listener.step_cases (h : s.step C e = some t) : s.Step C e t := by
  cases e with
  | tick d =>
    cases h
    exact .tick d
  | registration j o =>
    cases h
    exact .registration j o
  | ensureRunning =>
    cases h
    exact .ensureRunning
  | loopEnds =>
    cases h
    exact .loopEnds
  | incoming =>
    simp only [Listener.step, Option.ite_none_right_eq_some, Option.some.injEq] at h
    obtain ⟨-, rfl⟩ := h
    unfold Listener.incoming
    dsimp only
    split
    · rename_i hfull
      exact .refused hfull
    · rename_i hfree
      exact .accepted (Nat.lt_of_not_le hfree)
  | reap j =>
    simp only [Listener.step] at h
    split at h
    · rename_i c hc
      split at h
      · rename_i hok
        cases h
        exact .reap j c hc hok.2
      · cases h
    · cases h
  | conn j ce =>
    simp only [Listener.step] at h
    split at h
    · rename_i c hc
      split at h
      · rename_i q ns hadv
        cases h
        exact .conn j c ce q ns hc (C.advance_move hadv)
      · cases h
    · cases h

/-- What one event can mean for a connection: nothing, a move of its task, its arrival, or the end of the
loop. -/
inductive ConnStep (C : Config κ ν) (s : Listener ι ν) (e : Event ι σ ν) (i : ℕ) (c' : Conn ν) : Prop
  | kept (c : Conn ν) (hc : s.conns[i]? = some c) (hat : c'.acceptedAt = c.acceptedAt)
      (hphase : c'.phase = c.phase)
  | moved (c : Conn ν) (ce : ConnEvent σ ν) (ns : List Note) (he : e = .conn i ce) (hc : s.conns[i]? = some c)
      (hat : c'.acceptedAt = c.acceptedAt)
      (hmove : C.Move s.loops.view.revoked s.now c.phase ce c'.phase ns)
  | arrived (he : e = .incoming) (hat : c'.acceptedAt = s.now) (hphase : c'.phase = .spawned)
  | aborted (c : Conn ν) (he : e = .loopEnds) (hc : s.conns[i]? = some c) (hat : c'.acceptedAt = c.acceptedAt)
      (hphase : c'.phase = c.phase.abort)

theorem Conn.reap_eq (c : Conn ν) : c.reap.acceptedAt = c.acceptedAt ∧ c.reap.phase = c.phase := by
  unfold Conn.reap
  split <;> exact ⟨rfl, rfl⟩

omit [DecidableEq ι] in
theorem ConnStep.of_reap (hx : (s.conns.map Conn.reap)[i]? = some c') : ConnStep C s e i c' := by
  rw [List.getElem?_map, Option.map_eq_some_iff] at hx
  obtain ⟨c, hc, rfl⟩ := hx
  exact .kept c hc c.reap_eq.1 c.reap_eq.2

omit [DecidableEq ι] in
/-- Entry by entry, a change of one of them. -/
theorem ConnStep.of_set {c : Conn ν} (hc : s.conns[i]? = some c) {j : ℕ} {x y : Conn ν}
    (hx : (s.conns.set i y)[j]? = some x) (hy : j = i → x = y → ConnStep C s e j x) : ConnStep C s e j x := by
  by_cases hj : j = i
  · subst hj
    rw [List.getElem?_set_self (List.getElem?_eq_some_iff.mp hc).1] at hx
    exact hy rfl (Option.some.inj hx).symm
  · rw [List.getElem?_set_ne (Ne.symm hj)] at hx
    exact .kept x hx rfl rfl

theorem Listener.step_conn (h : s.step C e = some t) (hc' : t.conns[i]? = some c') :
    ConnStep C s e i c' := by
  cases Listener.step_cases h with
  | refused hfull => exact .of_reap hc'
  | accepted hfree =>
    rw [List.getElem?_append] at hc'
    split at hc'
    · exact .of_reap hc'
    · -- the last entry is the one that came
      simp only [List.getElem?_singleton, Option.ite_none_right_eq_some, Option.some.injEq] at hc'
      obtain ⟨-, rfl⟩ := hc'
      exact .arrived rfl rfl rfl
  | reap j c hc hfinished =>
    refine ConnStep.of_set hc hc' ?_
    rintro rfl rfl
    exact .kept c hc rfl rfl
  | conn j c ce q ns hc hmove =>
    refine ConnStep.of_set hc hc' ?_
    rintro rfl rfl
    exact .moved c ce ns rfl hc rfl hmove
  | loopEnds =>
    rw [List.getElem?_map, Option.map_eq_some_iff] at hc'
    obtain ⟨c, hc, rfl⟩ := hc'
    exact .aborted c rfl hc rfl rfl
  | _ => exact .kept c' hc' rfl rfl

/-- What the registration loops applied in a run, in order. -/
def registrations (es : List (Event ι σ ν)) : List (ι × RegistrationOutcome) :=
  es.filterMap (fun e =>
    match e with
    | .registration j o => some (j, o)
    | _ => none)

theorem Listener.loops_eq {es : List (Event ι σ ν)}
    (h : run (Listener.step C) ({} : Listener ι ν) es = some s) :
    s.loops = Loops.after (registrations es) := by
  refine run_history (I := fun es s => s.loops = Loops.after (registrations es)) rfl ?_ h
  intro es s e t _ ih ht
  have happend : registrations (es ++ [e]) = registrations es ++ registrations [e] := List.filterMap_append
  rw [happend]
  cases Listener.step_cases ht with
  | registration j o => exact (congrArg (Loops.apply · (j, o)) ih).trans (Loops.after_append _ _).symm
  | _ => exact ih.trans (congrArg Loops.after (List.append_nil _).symm)

/-- The step `e` behind the run `pre` judged connection `i`: its message 1 was read before its deadline and
opened under one of the Origin's keys, its payload is one the policy admits, and by then no refusal that
counts stood against the tunnel's token. -/
def JudgedAt (C : Config κ ν) (i : ℕ) (pre : List (Event ι σ ν)) (e : Event ι σ ν) : Prop :=
  ∃ m1 hs payload, e = .conn i (.message1 (some m1)) ∧
    C.originHandshakeAnyWithPayload m1 = some (hs, payload) ∧
    C.policy.Admits payload ∧ ¬ RefusedSince (registrations pre) ∧
    ∃ s c d, run (Listener.step C) ({} : Listener ι ν) pre = some s ∧ s.conns[i]? = some c ∧
      c.phase = .message1 d ∧ s.now < d

/-- The step `e` behind the run `pre` let connection `i` through the gate, in time where there is one. -/
def GatedAt (C : Config κ ν) (i : ℕ) (pre : List (Event ι σ ν)) (e : Event ι σ ν) : Prop :=
  ∃ (E : NoiseEnv σ ν) (client : σ) (s : Listener ι ν) (c : Conn ν) (d : ℕ) (transport : ν),
    e = .conn i (.gate E client) ∧ run (Listener.step C) ({} : Listener ι ν) pre = some s ∧
      s.conns[i]? = some c ∧ c.phase = .gate d transport ∧ (s.now < d ∨ C.mode = .off) ∧
      CredentialShown C.mode E transport client

namespace Phase

/-- Behind the verdict of the token check, up to the dial. -/
def isJudged : Phase ν → Bool
  | .message2 _ _ | .gate _ _ | .dialing => true
  | _ => false

end Phase

/-- What a run says of one connection on its way to the Origin. -/
structure Admitted (C : Config κ ν) (es : List (Event ι σ ν)) (i : ℕ) (c : Conn ν) : Prop where
  judged : c.phase.isJudged = true → Happened (JudgedAt C i) es
  gated : c.phase = .dialing → C.proto = .tcp → Happened (GatedAt C i) es

theorem Admitted.step {es : List (Event ι σ ν)} (hrun : run (Listener.step C) ({} : Listener ι ν) es = some s)
    (ih : ∀ c, s.conns[i]? = some c → Admitted C es i c) (ht : s.step C e = some t)
    (hc' : t.conns[i]? = some c') : Admitted C (es ++ [e]) i c' := by
  have hclear : s.loops.view.revoked = false → ¬ RefusedSince (registrations es) := by
    intro hf
    rw [← Loops.revoked_iff, ← Listener.loops_eq hrun, hf]
    exact Bool.false_ne_true
  have hearlier (c : Conn ν) (hc : s.conns[i]? = some c) (hj : c.phase.isJudged = true) :
      Happened (JudgedAt C i) (es ++ [e]) := ((ih c hc).judged hj).later e
  cases Listener.step_conn ht hc' with
  | kept c hc hat hphase =>
    constructor
    · intro hj
      exact hearlier c hc (hphase ▸ hj)
    · intro hd htcp
      exact ((ih c hc).gated (hphase ▸ hd) htcp).later e
  | moved c ce ns he hc hat hmove =>
    obtain ⟨at', phase', reaped'⟩ := c'
    obtain ⟨at₀, phase₀, reaped₀⟩ := c
    dsimp only at hmove
    cases hmove with
    | judged d m1 hs payload ns hlate hmsg hrev hadmits hns =>
      refine ⟨fun _ => .last ?_, by simp⟩
      exact ⟨m1, hs, payload, he, hmsg, hadmits, hclear hrev, s, _, d, hrun, hc, rfl, hlate⟩
    | opened d hs htcp hlate => exact ⟨fun _ => hearlier _ hc rfl, by simp⟩
    | lifted d hs hudp =>
      refine ⟨fun _ => hearlier _ hc rfl, fun _ htcp => ?_⟩
      rw [hudp] at htcp
      cases htcp
    | gatePassed d transport E client first transport' client' hlate hgate =>
      refine ⟨fun _ => hearlier _ hc rfl, fun _ _ => .last ?_⟩
      exact ⟨E, client, s, _, d, transport, he, hrun, hc, rfl, hlate, credentialShown_of_proceed hgate⟩
    | _ => exact ⟨by simp [Phase.isJudged], by simp⟩
  | arrived he hat hphase => exact ⟨by simp [hphase, Phase.isJudged], by simp [hphase]⟩
  | aborted c he hc hat hphase =>
    rw [Phase.abort.eq_def] at hphase
    split at hphase <;> exact ⟨by simp [hphase, Phase.isJudged], by simp [hphase]⟩

/-- Whenever the Origin is dialed for a direct connection, its peer was judged before the deadline, at a
moment when no refusal that counts stood against the token, with the tunnel's own token or with none where
none is required; and over TCP it passed the local gate before the deadline. -/
theorem dialed_was_admitted (C : Config κ ν) (pre post : List (Event ι σ ν)) (i : ℕ) (connected : Bool)
    (s : Listener ι ν)
    (hrun : run (Listener.step C) ({} : Listener ι ν) (pre ++ .conn i (.dial connected) :: post) = some s) :
    Happened (JudgedAt C i) pre ∧ (C.proto = .tcp → Happened (GatedAt C i) pre) := by
  obtain ⟨u, v, hu, hv, -⟩ := run_split hrun
  have hinv : ∀ c, u.conns[i]? = some c → Admitted C pre i c := by
    refine run_history (I := fun es s => ∀ c, s.conns[i]? = some c → Admitted C es i c) ?_ ?_ hu
    · intro c hc
      cases hc
    · intro es s e t hes ih ht c hc
      exact Admitted.step hes ih ht hc
  cases Listener.step_cases hv with
  | conn i c ce q ns hc hmove =>
    have hphase : c.phase = .dialing := by
      obtain ⟨at₀, phase₀, reaped₀⟩ := c
      dsimp only at hmove
      cases hmove <;> rfl
    have hc := hinv c hc
    exact ⟨hc.judged (by rw [hphase]; rfl), hc.gated hphase⟩

end

/-- One Origin key and the text challenge in front of a TCP Origin. -/
def oneKey : Config Unit Unit where
  limits := .default
  proto := .tcp
  policy := ⟨List.replicate 32 7, true⟩
  mode := .textChallenge
  originKeys := [()]
  readMessage _ msg := some ((), msg)

/-- A hash that keeps the first byte behind the salt. -/
def firstByteHash (input : Bytes) : Vector UInt8 32 := Vector.replicate 32 (input.getD 16 0)

/-- A gate whose password is `p`. -/
def passwordGate : LocalAuth.LocalAuthGate :=
  ⟨some (.new firstByteHash (Vector.replicate 16 0) "ops" [112]), .new, .new, none⟩

/-- That gate over a session that encrypts nothing. -/
def onePassword : NoiseEnv Pieces Unit where
  originHandshakeAnyWithPayload m1 := some ((), m1)
  message2Write := none
  gateWrite := none
  localAuth := ⟨firstByteHash, passwordGate, 1000, 1000, 1000, none, "", Vector.replicate 32 0⟩
  readMessage _ ct := some (ct, ())
  origin := ⟨none, none, [], none⟩
  pump _ _ := []
  pumpEnd := none
  udpBind := none
  udpConnect := none
  udpTurns := 0
  udpSend _ := none

/-- A client with the tunnel's token and the password, up to the dial. -/
def oneClient : List (Event Unit Pieces Unit) :=
  [.registration () .succeeded, .incoming, .conn 0 .begin, .conn 0 (.streams true), .tick 5,
    .conn 0 (.message1 (some (directHsPayloadTokenV1 :: List.replicate 32 7))), .conn 0 (.message2 true),
    .conn 0 (.gate onePassword [[0, 2, 112], [10]])]

theorem oneClient_was_admitted :
    Happened (JudgedAt oneKey 0) oneClient ∧ (oneKey.proto = .tcp → Happened (GatedAt oneKey 0) oneClient) :=
  dialed_was_admitted oneKey oneClient [] 0 true _ rfl

end CtAgent.Serve.Direct
