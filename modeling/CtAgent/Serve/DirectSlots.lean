import CtAgent.Serve.DirectRuns

/-! The slots of the direct listener and its counters, over every run (serve.rs). -/
namespace CtAgent.Serve.Direct
open CtAgent.Lib CtAgent.Lib.ByteSource

section
variable {κ σ ν ι : Type} [ByteSource σ] [DecidableEq ι] {C : Config κ ν} {s t : Listener ι ν}
  {e : Event ι σ ν}

/-- The connections in a phase of a kind. -/
def Listener.countBy (s : Listener ι ν) (f : Phase ν → Bool) : ℕ := s.conns.countP (fun c => f c.phase)

/-- A kind of phase and the counter that is meant to count it: every move into the kind is noted, no
connection starts in it, and the end of the loop neither brings one into it nor takes one out. -/
structure Counts (C : Config κ ν) (σ : Type) [ByteSource σ] (f : Phase ν → Bool) (n : Note)
    (g : Metrics → ℕ) : Prop where
  move : ∀ revoked now p q ns (e : ConnEvent σ ν), C.Move revoked now p e q ns →
    ns.count n + (if f p then 1 else 0) = if f q then 1 else 0
  spawned : f .spawned = false
  abort : ∀ p, f p.abort = f p
  start : g {} = 0
  note : ∀ m ns, g (m.note ns) = g m + ns.count n
  capacity : ∀ m k, g { m with refusedAtCapacity := k } = g m

omit [DecidableEq ι] in
theorem countBy_reap (s : Listener ι ν) (f : Phase ν → Bool) :
    (s.conns.map Conn.reap).countP (fun c => f c.phase) = s.countBy f := by
  apply countP_map_of_eq
  intro c _
  rw [c.reap_eq.2]

theorem Counts.step {f : Phase ν → Bool} {n : Note} {g : Metrics → ℕ} (h : Counts C σ f n g)
    (hinv : g s.metrics = s.countBy f) (ht : s.step C e = some t) : g t.metrics = t.countBy f := by
  cases Listener.step_cases ht with
  | refused hfull => exact (h.capacity _ _).trans (hinv.trans (countBy_reap s f).symm)
  | accepted hfree =>
    have hpush := countP_push (s.conns.map Conn.reap) (fun c => f c.phase) ⟨s.now, .spawned, false⟩
    simp only [h.spawned, Bool.false_eq_true, if_false, Nat.add_zero] at hpush
    exact hinv.trans ((countBy_reap s f).symm.trans hpush.symm)
  | reap i c hc hfinished =>
    have hput := countP_put hc (fun c => f c.phase) { c with reaped := true }
    exact hinv.trans (Nat.add_right_cancel hput).symm
  | conn i c ce q ns hc hmove =>
    have hput := countP_put hc (fun c => f c.phase) { c with phase := q }
    have hone := h.move _ _ _ _ _ _ hmove
    change g (s.metrics.note ns) = (s.conns.set i { c with phase := q }).countP (fun c => f c.phase)
    rw [h.note, hinv]
    dsimp only at hput
    unfold Listener.countBy
    omega
  | loopEnds =>
    have hall : (s.conns.map (fun c => { c with phase := c.phase.abort, reaped := true })).countP
        (fun c => f c.phase) = s.countBy f := by
      apply countP_map_of_eq
      intro c _
      exact h.abort c.phase
    exact hinv.trans hall.symm
  | _ => exact hinv

theorem Counts.of_run {f : Phase ν → Bool} {n : Note} {g : Metrics → ℕ} (h : Counts C σ f n g)
    {es : List (Event ι σ ν)} (hrun : run (Listener.step C) ({} : Listener ι ν) es = some s) :
    g s.metrics = s.countBy f :=
  run_invariant _ (fun s => g s.metrics = s.countBy f) (fun _ _ _ hs ht => h.step hs ht) es _ s h.start hrun

theorem counts_opened (htcp : C.proto = .tcp) :
    Counts C σ Phase.isOpened .tunnelsOpened Metrics.tunnelsOpened where
  move := by
    intro revoked now p q ns e h
    cases h with
    | judged d m1 hs payload ns hlate hmsg hclear hadmits hns => rcases hns with rfl | ⟨rfl, -⟩ <;> rfl
    | lifted d hs hudp =>
      rw [htcp] at hudp
      cases hudp
    | _ => simp [Phase.isOpened, Config.failed, htcp]
  spawned := rfl
  abort := by
    intro p
    unfold Phase.abort
    split
    · rfl
    · cases h : p.isOpened <;> rfl
  start := rfl
  note _ _ := rfl
  capacity _ _ := rfl

/-- A failed or refused handshake ends the task, so that the end of the loop finds it finished. -/
theorem Phase.abort_of_finished {f : Phase ν → Bool} (hf : ∀ p, f p = true → p.isFinished = true)
    (ha : ∀ b, f (.finished (.aborted b)) = false) (p : Phase ν) : f p.abort = f p := by
  unfold Phase.abort
  split
  · rfl
  · rename_i hne
    rw [ha]
    symm
    by_contra h
    have hfin := hf p (Bool.eq_true_of_not_eq_false h)
    cases p with
    | finished how => exact hne how rfl
    | _ => cases hfin

theorem counts_failed (htcp : C.proto = .tcp) :
    Counts C σ Phase.isFailed .tunnelsFailed Metrics.tunnelsFailed where
  move := by
    intro revoked now p q ns e h
    cases h with
    | judged d m1 hs payload ns hlate hmsg hclear hadmits hns => rcases hns with rfl | ⟨rfl, -⟩ <;> rfl
    | _ => simp [Phase.isFailed, Config.failed, htcp]
  spawned := rfl
  abort := by
    apply Phase.abort_of_finished
    · intro p hp
      cases p with
      | finished how => rfl
      | _ => cases hp
    · intro b
      rfl
  start := rfl
  note _ _ := rfl
  capacity _ _ := rfl

theorem counts_refused : Counts C σ Phase.isRefused .directRefused Metrics.directRefused where
  move := by
    intro revoked now p q ns e h
    have hfailed : C.failed.count .directRefused = 0 := by
      unfold Config.failed
      split <;> rfl
    cases h with
    | judged d m1 hs payload ns hlate hmsg hclear hadmits hns => rcases hns with rfl | ⟨rfl, -⟩ <;> rfl
    | _ => simp [Phase.isRefused, hfailed]
  spawned := rfl
  abort := by
    apply Phase.abort_of_finished
    · intro p hp
      cases p with
      | finished how => rfl
      | _ => cases hp
    · intro b
      rfl
  start := rfl
  note _ _ := rfl
  capacity _ _ := rfl

def Event.isIncoming : Event ι σ ν → Bool
  | .incoming => true
  | _ => false

/-- Every connection that came is a task or a refusal at the cap. -/
theorem Listener.accepted_eq {es : List (Event ι σ ν)}
    (hrun : run (Listener.step C) ({} : Listener ι ν) es = some s) :
    s.conns.length + s.metrics.refusedAtCapacity = es.countP Event.isIncoming := by
  refine run_history (I := fun es s => s.conns.length + s.metrics.refusedAtCapacity =
    es.countP Event.isIncoming)
    rfl ?_ hrun
  intro es s e t _ ih ht
  rw [countP_push]
  cases Listener.step_cases ht with
  | refused hfull =>
    simp only [List.length_map, Event.isIncoming, if_true]
    omega
  | accepted hfree =>
    simp only [List.length_append, List.length_map, List.length_singleton, Event.isIncoming, if_true]
    omega
  | _ => simpa [Event.isIncoming, Metrics.note] using ih

/-- Where the token is required no handshake is served without one. -/
theorem Listener.no_legacy (hreq : C.policy.requireToken = true) {es : List (Event ι σ ν)}
    (hrun : run (Listener.step C) ({} : Listener ι ν) es = some s) : s.metrics.directLegacyServed = 0 := by
  refine run_invariant _ (fun s : Listener ι ν => s.metrics.directLegacyServed = 0) ?_ es _ s rfl hrun
  intro s e t hs ht
  cases Listener.step_cases ht with
  | conn i c ce q ns hc hmove =>
    have hnone : ns.count .directLegacyServed = 0 := by
      have hfailed : C.failed.count .directLegacyServed = 0 := by
        unfold Config.failed
        split <;> rfl
      obtain ⟨at₀, phase₀, reaped₀⟩ := c
      dsimp only at hmove
      cases hmove with
      | judged d m1 hs payload ns hlate hmsg hclear hadmits hns =>
        rcases hns with rfl | ⟨rfl, hoff⟩
        · rfl
        · rw [hreq] at hoff
          cases hoff
      | _ => simp [hfailed]
    change s.metrics.directLegacyServed + ns.count .directLegacyServed = 0
    omega
  | _ => exact hs

/-- Over TCP every accepted connection is counted once, as opened or as failed, when its handshake is
settled; the refusals of the token check are counted among the failed ones; every connection that came is
accounted for; and with the token required none is counted as served without it. -/
theorem direct_accounts (C : Config κ ν) (htcp : C.proto = .tcp) (es : List (Event ι σ ν)) (s : Listener ι ν)
    (hrun : run (Listener.step C) ({} : Listener ι ν) es = some s) :
    s.metrics.tunnelsOpened = s.countBy Phase.isOpened ∧
      s.metrics.tunnelsFailed = s.countBy Phase.isFailed ∧
      s.metrics.directRefused = s.countBy Phase.isRefused ∧
      s.metrics.tunnelsOpened + s.metrics.tunnelsFailed +
          s.countBy (fun p => !p.isOpened && !p.isFailed) + s.metrics.refusedAtCapacity =
        es.countP Event.isIncoming ∧
      (C.policy.requireToken = true → s.metrics.directLegacyServed = 0) := by
  have hopened := (counts_opened (σ := σ) htcp).of_run hrun
  have hfailed := (counts_failed (σ := σ) htcp).of_run hrun
  have hparts (l : List (Conn ν)) : l.countP (fun c => c.phase.isOpened) +
    l.countP (fun c => c.phase.isFailed) +
      l.countP (fun c => !c.phase.isOpened && !c.phase.isFailed) = l.length := by
    induction l with
    | nil => rfl
    | cons c l ih =>
      have hone : (if c.phase.isOpened then 1 else 0) + (if c.phase.isFailed then 1 else 0) +
          (if !c.phase.isOpened && !c.phase.isFailed then 1 else 0) = 1 := by
        cases hp : c.phase with
        | finished how =>
          cases how with
          | aborted b => cases b <;> rfl
          | _ => rfl
        | _ => rfl
      simp only [List.countP_cons, List.length_cons]
      omega
  refine ⟨hopened, hfailed, counts_refused.of_run hrun, ?_, fun hreq => Listener.no_legacy hreq hrun⟩
  have hall := Listener.accepted_eq hrun
  have hsum := hparts s.conns
  rw [hopened, hfailed]
  unfold Listener.countBy
  dsimp only
  omega

end

/-- The client of `oneClient`, one with no token, and the end of the loop. -/
theorem direct_accounts_oneClient :
    ∃ s : Listener Unit Unit, s.metrics.tunnelsOpened = s.countBy Phase.isOpened ∧
      s.metrics.tunnelsFailed = s.countBy Phase.isFailed ∧ s.metrics.tunnelsOpened = 1 ∧
      s.metrics.tunnelsFailed = 1 := by
  have h := direct_accounts oneKey rfl (oneClient ++ [.incoming, .conn 1 .begin, .conn 1 (.streams true),
    .conn 1 (.message1 (some [])), .loopEnds]) _ rfl
  exact ⟨_, h.1, h.2.1, rfl, rfl⟩

section
variable {κ σ ν ι : Type} [ByteSource σ] [DecidableEq ι] {C : Config κ ν} {s t : Listener ι ν}
  {e : Event ι σ ν}

/-- A task that was spawned runs before time passes, and time does not pass a timer a task waits on. -/
def Phase.lets (now d : ℕ) : Phase ν → Bool
  | .spawned => d == 0
  | p =>
    match p.due with
    | some u => decide (now + d ≤ u)
    | none => true

def Listener.prompt (s : Listener ι ν) : Event ι σ ν → Bool
  | .tick d => s.conns.all (fun c => c.phase.lets s.now d)
  | _ => true

/-- The deadline of a connection is its arrival's, and no timer is overdue. -/
def Conn.Timed (C : Config κ ν) (now : ℕ) (c : Conn ν) : Prop :=
  match c.phase with
  | .spawned => c.acceptedAt = now
  | .setup d | .message1 d | .message2 d _ | .gate d _ => d = c.acceptedAt + C.limits.setupTimeout ∧ now ≤ d
  | .lingering u => now ≤ u ∧ u ≤ now + C.limits.linger
  | _ => True

/-- A prompt step keeps every connection on time. -/
theorem Conn.Timed.step (hin : ∀ c ∈ s.conns, c.Timed C s.now)
    (ht : guarded (Listener.step C) Listener.prompt s e = some t) : ∀ c' ∈ t.conns, c'.Timed C t.now := by
  obtain ⟨hprompt, ht⟩ := guarded_eq_some.mp ht
  intro c' hc'
  obtain ⟨i, hi⟩ := List.mem_iff_getElem?.mp hc'
  by_cases htick : ∃ d, e = .tick d
  · obtain ⟨d, rfl⟩ := htick
    cases ht
    have hlets := List.all_eq_true.mp hprompt c' hc'
    have htimed := hin c' hc'
    unfold Conn.Timed at htimed ⊢
    cases hp : c'.phase with
    | spawned =>
      simp only [hp, Phase.lets, beq_iff_eq] at hlets htimed ⊢
      omega
    | setup u | message1 u | message2 u hs | gate u transport | lingering u =>
      simp only [hp, Phase.lets, Phase.due, decide_eq_true_eq] at hlets htimed ⊢
      omega
    | _ => trivial
  · have hnow : t.now = s.now := by
      cases Listener.step_cases ht with
      | tick d => exact absurd ⟨d, rfl⟩ htick
      | _ => rfl
    rw [hnow]
    cases Listener.step_conn ht hi with
    | kept c hc hat hphase =>
      have hpast := hin c (List.mem_of_getElem? hc)
      unfold Conn.Timed at hpast ⊢
      rw [hphase, hat]
      exact hpast
    | moved c ce ns he hc hat hmove =>
      have hpast := hin c (List.mem_of_getElem? hc)
      obtain ⟨at', phase', reaped'⟩ := c'
      obtain ⟨at₀, phase₀, reaped₀⟩ := c
      obtain rfl : at' = at₀ := hat
      dsimp only at hmove
      cases hmove with
      | begin =>
        have hat : at' = s.now := hpast
        exact ⟨by rw [hat], Nat.le_add_right _ _⟩
      | streams d => exact hpast
      | judged d m1 hs payload ns hlate hmsg hclear hadmits hns => exact hpast
      | opened d hs htcp hlate => exact hpast
      | gateClosed d transport E client => exact ⟨Nat.le_add_right _ _, Nat.le_refl _⟩
      | relayed => exact ⟨Nat.le_add_right _ _, Nat.le_refl _⟩
      | _ => trivial
    | arrived he hat hphase =>
      unfold Conn.Timed
      rw [hphase]
      exact hat
    | aborted c he hc hat hphase =>
      have hfinished : c.phase.abort.isFinished = true := by
        unfold Phase.abort
        split <;> rfl
      unfold Conn.Timed
      rw [hphase]
      cases hp : c.phase.abort with
      | finished how => trivial
      | _ =>
        rw [hp] at hfinished
        cases hfinished

/-- The set of tasks stays within the cap. -/
theorem Listener.slots_step (hcap : s.slots ≤ C.limits.maxConnections) (ht : s.step C e = some t) :
    t.slots ≤ C.limits.maxConnections := by
  have hreap : (s.conns.map Conn.reap).countP (fun c => !c.reaped) ≤ s.slots := by
    rw [List.countP_map]
    apply List.countP_mono_left
    intro c _ hc
    by_contra hreaped
    have : c.reap.reaped = true := by
      unfold Conn.reap
      split
      · rfl
      · simpa using hreaped
    simp [this] at hc
  cases Listener.step_cases ht with
  | refused hfull => exact hreap.trans hcap
  | accepted hfree =>
    unfold Listener.slots
    rw [countP_push]
    exact hfree
  | reap i c hc hfinished =>
    have hput := countP_put hc (fun c => !c.reaped) { c with reaped := true }
    unfold Listener.slots at hcap ⊢
    simp only [Bool.not_true, Bool.false_eq_true, if_false] at hput
    dsimp only
    omega
  | conn i c ce q ns hc hmove =>
    have hput := countP_put hc (fun c => !c.reaped) { c with phase := q }
    unfold Listener.slots at hcap ⊢
    dsimp only at hput ⊢
    omega
  | loopEnds =>
    unfold Listener.slots
    rw [List.countP_map]
    simp [Function.comp_def]
  | _ => exact hcap

/-- A connection is refused at the cap only when every slot is held by a task that has not ended. -/
theorem Listener.refused_full (hcap : s.slots ≤ C.limits.maxConnections)
    (ht : s.step C (.incoming : Event ι σ ν) = some t)
    (hrefused : t.metrics.refusedAtCapacity ≠ s.metrics.refusedAtCapacity) :
    s.conns.countP (fun c => !c.reaped && !c.phase.isFinished) = C.limits.maxConnections := by
  have hreap : (s.conns.map Conn.reap).countP (fun c => !c.reaped) =
      s.conns.countP (fun c => !c.reaped && !c.phase.isFinished) := by
    rw [List.countP_map]
    apply List.countP_congr
    intro c _
    simp only [Function.comp_apply, Conn.reap]
    cases hp : c.phase.isFinished <;> simp
  have hle : s.conns.countP (fun c => !c.reaped && !c.phase.isFinished) ≤ s.slots := by
    apply List.countP_mono_left
    intro c _ hc
    exact (Bool.and_eq_true_iff.mp hc).1
  cases Listener.step_cases ht with
  | refused hfull =>
    rw [hreap] at hfull
    omega
  | accepted hfree => exact absurd rfl hrefused

/-- As long as tasks and timers run when they are due: the slots stay within the cap, whoever is not
authenticated gives its slot back within the setup timeout and whoever was served within the linger, and a
connection is refused only when as many tasks as the cap are still at work, every one of them authenticated
or no older than the setup timeout. -/
theorem slots_come_back (C : Config κ ν) (es : List (Event ι σ ν)) (s : Listener ι ν)
    (hrun : run (guarded (Listener.step C) Listener.prompt) ({} : Listener ι ν) es = some s) :
    s.slots ≤ C.limits.maxConnections ∧
      (∀ c ∈ s.conns, c.phase.unauthenticated = true → s.now ≤ c.acceptedAt + C.limits.setupTimeout) ∧
      (∀ c ∈ s.conns, ∀ u, c.phase = .lingering u → s.now ≤ u ∧ u ≤ s.now + C.limits.linger) ∧
      ∀ t, s.step C (.incoming : Event ι σ ν) = some t →
        t.metrics.refusedAtCapacity ≠ s.metrics.refusedAtCapacity →
          s.conns.countP (fun c => !c.reaped && !c.phase.isFinished &&
            (!c.phase.unauthenticated || decide (s.now ≤ c.acceptedAt + C.limits.setupTimeout))) =
              C.limits.maxConnections := by
  have hinv : s.slots ≤ C.limits.maxConnections ∧ ∀ c ∈ s.conns, c.Timed C s.now := by
    refine run_invariant _ (fun s : Listener ι ν => s.slots ≤ C.limits.maxConnections ∧
      ∀ c ∈ s.conns, c.Timed C s.now) ?_ es _ s ⟨Nat.zero_le _, by simp⟩ hrun
    intro s e t hs ht
    exact ⟨Listener.slots_step hs.1 (guarded_eq_some.mp ht).2, Conn.Timed.step hs.2 ht⟩
  obtain ⟨hcap, htimed⟩ := hinv
  have hyoung (c : Conn ν) (hc : c ∈ s.conns) (hu : c.phase.unauthenticated = true) :
      s.now ≤ c.acceptedAt + C.limits.setupTimeout := by
    have h := htimed c hc
    unfold Conn.Timed at h
    cases hp : c.phase with
    | spawned =>
      simp only [hp] at h
      omega
    | setup d | message1 d | message2 d hs | gate d transport =>
      simp only [hp] at h
      omega
    | _ =>
      rw [hp] at hu
      cases hu
  refine ⟨hcap, hyoung, ?_, ?_⟩
  · intro c hc u hu
    have h := htimed c hc
    unfold Conn.Timed at h
    simpa only [hu] using h
  · intro t ht hrefused
    rw [← Listener.refused_full hcap ht hrefused]
    apply List.countP_congr
    intro c hc
    have hage : (!c.phase.unauthenticated || decide (s.now ≤ c.acceptedAt + C.limits.setupTimeout)) =
      true := by
      cases hu : c.phase.unauthenticated with
      | false => rfl
      | true => simp [hyoung c hc hu]
    rw [hage, Bool.and_true]

end

/-- A listener of one slot, and a peer that opens no stream: the next one has its place ten seconds later. -/
theorem slots_come_back_one :
    ∃ s : Listener Unit Unit, s.slots ≤ 1 ∧ s.now = 10 * 10^9 ∧ s.conns.length = 2 := by
  have h := slots_come_back { oneKey with limits := ⟨1, 10 * 10^9, 30 * 10^9⟩ }
    ([.incoming, .conn 0 .begin, .incoming, .tick (10 * 10^9), .conn 0 .setupTimeout, .incoming] :
      List (Event Unit Pieces Unit)) _ rfl
  exact ⟨_, h.1, rfl, rfl⟩

end CtAgent.Serve.Direct
