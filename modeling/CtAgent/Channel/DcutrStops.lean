import CtAgent.Channel.DcutrLoop

/-! When the DCUtR join loop stops, over every sequence of joins. -/
namespace CtAgent.Channel.Dcutr
open CtAgent.Lib

section
variable {T : Type}

section
variable (ownExpiresAt : Option ℕ)

/-- The clock or a timer tells of the own grant's end, in front of the join of a round or behind it. -/
inductive ToldExpired (expiry : ℕ) (rounds : List (Round T)) (turns : List (Turn T)) : Prop where
  | inFront (before after : List (Round T)) (r : Round T) (hrounds : rounds = before ++ r :: after)
    (hturns : turns.length = before.length) (htold : expiry ≤ r.now)
  | behind (before after : List (Round T)) (r : Round T) (hrounds : rounds = before ++ r :: after)
    (hturns : turns.length = before.length + 1) (htold : r.expiredDuring = true ∨ r.expiredBackoff = true)

/-- The ends of a serve loop: the own grant is over, by the clock or by a refusal, or the dials failed
too often in a row. -/
inductive ServeEnd (rounds : List (Round T)) (turns : List (Turn T)) (e : LoopEnd T) : Prop where
  | expired (expiry : ℕ) (hown : ownExpiresAt = some expiry) (htold : ToldExpired expiry rounds turns)
    (he : e = ownExpiryEnds expiry)
  | refused (reason : String) (before : List (Turn T)) (t : Turn T) (hturns : turns = before ++ [t])
    (hreason : t.ownRefusal ownExpiresAt = some reason) (he : e = .ownGrantEnded reason)
  | gaveUp (why : String) (hmany : dialFailuresInARow ownExpiresAt turns = maxConsecutiveDcutrDialFailures)
    (he : e = .gaveUp why)

/-- The delay behind the `k`-th of a row, without its jitter. -/
def rowDelay (k : ℕ) : ℕ := admissionRetryBackoff dcutrRetryBackoff true (UInt32.ofNat (k - 1))

/-- The joins behind which a serve loop has to stop. -/
def EndsServing (before : List (Turn T)) (t : Turn T) : Prop :=
  t.kind ownExpiresAt = .dropped ∨ t.kind ownExpiresAt = .ownGrantRefusal ∨
    maxConsecutiveDcutrDialFailures ≤ dialFailuresInARow ownExpiresAt (before ++ [t])

structure ServeStops (rounds : List (Round T)) (s : LoopState T) : Prop where
  returns : ∀ e, s.ended = some e → ServeEnd ownExpiresAt rounds s.turns e
  stops : ∀ before t after, s.turns = before ++ t :: after → EndsServing ownExpiresAt before t →
    after = [] ∧ s.ended.isSome = true
  refusalDelay : EachAfter (fun before t => t.kind ownExpiresAt = .definitiveRefusal →
    t.delay = some (rowDelay (refusalsInARow ownExpiresAt (before ++ [t])))) s.turns
  dialDelay : EachAfter (fun before t => t.kind ownExpiresAt = .dialFailure →
    dialFailuresInARow ownExpiresAt (before ++ [t]) < maxConsecutiveDcutrDialFailures →
    t.delay = some (rowDelay (dialFailuresInARow ownExpiresAt (before ++ [t])))) s.turns

/-- The ends of a one-shot loop: its last join settles the matter, the attempts are spent, or the own
grant is over by the clock. -/
inductive OneShotEnd (rounds : List (Round T)) (turns : List (Turn T)) (e : LoopEnd T) : Prop where
  | settled (before : List (Turn T)) (t : Turn T) (hturns : turns = before ++ [t])
    (hsettles : t.settles = true)
  | spent (before : List (Turn T)) (t : Turn T) (hturns : turns = before ++ [t])
    (hspent : turns.length = 1 + oneShotDcutrAdmissionRetries) (he : t.result = some e)
  | expired (expiry : ℕ) (hown : ownExpiresAt = some expiry) (htold : ToldExpired expiry rounds turns)
    (he : e = ownExpiryEnds expiry)

structure OneShotStops (rounds : List (Round T)) (s : LoopState T) : Prop where
  joins : s.turns.length ≤ 1 + oneShotDcutrAdmissionRetries
  ends : ∀ e, s.ended = some e → OneShotEnd ownExpiresAt rounds s.turns e
  returns : ∀ before t after, s.turns = before ++ t :: after → t.settles = true →
    after = [] ∧ s.ended.isSome = true ∧ (ownExpiresAt = none → s.ended = t.result)

/-- The rounds a loop went through: the joins of all of them while it goes on, else those up to the round
it ended in. -/
inductive GoesThrough (rounds : List (Round T)) (s : LoopState T) : Prop where
  | goesOn (hturns : List.Forall₂ (JoinOf ownExpiresAt) rounds s.turns) (hended : s.ended = none)
  | endedBehind (before after : List (Round T)) (r : Round T) (hrounds : rounds = before ++ r :: after)
    (hturns : List.Forall₂ (JoinOf ownExpiresAt) (before ++ [r]) s.turns) (hended : s.ended.isSome = true)
  | endedInFront (before after : List (Round T)) (r : Round T) (expiry : ℕ)
    (hrounds : rounds = before ++ r :: after)
    (hturns : List.Forall₂ (JoinOf ownExpiresAt) before s.turns) (hown : ownExpiresAt = some expiry)
    (hover : expiry ≤ r.now) (hended : s.ended = some (ownExpiryEnds expiry))

def StartsInTime (s : LoopState T) : Prop :=
  ∀ t ∈ s.turns, ∀ expiry, ownExpiresAt = some expiry → t.startedAt < expiry

/-- The counters of a serve loop are the rows its joins end in. -/
structure ServeInv (rounds : List (Round T)) (s : LoopState T) :
    Prop extends ServeStops ownExpiresAt rounds s where
  joined : s.ended = none → s.turns.length = rounds.length
  goesOn : s.ended = none → EachAfter (fun before t => ¬ EndsServing ownExpiresAt before t) s.turns
  few : s.ended = none → dialFailuresInARow ownExpiresAt s.turns < maxConsecutiveDcutrDialFailures
  refusals : s.ended = none → s.consecutiveRefusals = UInt32.ofNat (refusalsInARow ownExpiresAt s.turns)
  dials : s.ended = none → s.consecutiveDialFailures = dialFailuresInARow ownExpiresAt s.turns

/-- While a one-shot loop goes on, every join of it was retried. -/
structure OneShotInv (rounds : List (Round T)) (s : LoopState T) : Prop
    extends OneShotStops ownExpiresAt rounds s where
  joined : s.ended = none → s.turns.length = rounds.length
  attempts : s.ended = none → s.turns.length = s.attempt ∧ s.attempt ≤ oneShotDcutrAdmissionRetries
  retried : s.ended = none → ∀ t ∈ s.turns, t.settles = false

end

section
variable {label : String} {ownExpiresAt : Option ℕ} {s s' : LoopState T} {r : Round T}
  {rounds : List (Round T)}

theorem StartsInTime.pass {leads : Turn T → LoopState T → Prop} (h : StartsInTime ownExpiresAt s)
    (hpass : PassOf ownExpiresAt r s leads s') : StartsInTime ownExpiresAt s' := by
  rcases hpass with ⟨expiry, -, -, rfl⟩ | ⟨t, hturns, -, hintime, -⟩
  · exact h
  · intro t' ht'
    rw [hturns] at ht'
    rcases List.mem_append.mp ht' with ht' | ht'
    · exact h t' ht'
    · rw [List.mem_singleton.mp ht']
      exact hintime

theorem GoesThrough.pass {leads : Turn T → LoopState T → Prop} (h : GoesThrough ownExpiresAt rounds s)
    (hs : s.ended = none) (hpass : PassOf ownExpiresAt r s leads s') :
    GoesThrough ownExpiresAt (rounds ++ [r]) s' := by
  cases h with
  | goesOn hturns hended =>
    rcases hpass with ⟨expiry, hown, hover, rfl⟩ | ⟨t, hturns', hjoin, -, -⟩
    · exact .endedInFront rounds [] r expiry rfl hturns hown hover rfl
    · have hall : List.Forall₂ (JoinOf ownExpiresAt) (rounds ++ [r]) s'.turns := by
        rw [hturns']
        exact List.rel_append hturns (.cons hjoin .nil)
      cases hended' : s'.ended with
      | none => exact .goesOn hall hended'
      | some e =>
        have hsome : s'.ended.isSome = true := by rw [hended']; rfl
        exact .endedBehind rounds [] r rfl hall hsome
  | endedBehind before after r' hrounds hturns hended =>
    rw [hs] at hended
    exact absurd hended Bool.false_ne_true
  | endedInFront before after r' expiry hrounds hturns hown hover hended =>
    rw [hs] at hended
    exact absurd hended nofun

/-- A loop that has returned passes no further round. -/
theorem GoesThrough.later (h : GoesThrough ownExpiresAt rounds s) (hs : s.ended.isSome = true) :
    GoesThrough ownExpiresAt (rounds ++ [r]) s := by
  cases h with
  | goesOn hturns hended =>
    rw [hended] at hs
    exact absurd hs Bool.false_ne_true
  | endedBehind before after r' hrounds hturns hended =>
    exact .endedBehind before (after ++ [r]) r'
      (by rw [hrounds, List.append_assoc, List.cons_append]) hturns hended
  | endedInFront before after r' expiry hrounds hturns hown hover hended =>
    exact .endedInFront before (after ++ [r]) r' expiry (by rw [hrounds, List.append_assoc, List.cons_append])
      hturns hown hover hended

theorem ToldExpired.later {expiry : ℕ} {turns : List (Turn T)} (h : ToldExpired expiry rounds turns) :
    ToldExpired expiry (rounds ++ [r]) turns := by
  cases h with
  | inFront before after r' hrounds hturns htold =>
    exact .inFront before (after ++ [r]) r' (by rw [hrounds, List.append_assoc, List.cons_append]) hturns htold
  | behind before after r' hrounds hturns htold =>
    exact .behind before (after ++ [r]) r' (by rw [hrounds, List.append_assoc, List.cons_append]) hturns htold

theorem ServeEnd.later {turns : List (Turn T)} {e : LoopEnd T} (h : ServeEnd ownExpiresAt rounds turns e) :
    ServeEnd ownExpiresAt (rounds ++ [r]) turns e := by
  cases h with
  | expired expiry hown htold he => exact .expired expiry hown htold.later he
  | refused reason before t hturns hreason he => exact .refused reason before t hturns hreason he
  | gaveUp why hmany he => exact .gaveUp why hmany he

theorem OneShotEnd.later {turns : List (Turn T)} {e : LoopEnd T} (h : OneShotEnd ownExpiresAt rounds turns e) :
    OneShotEnd ownExpiresAt (rounds ++ [r]) turns e := by
  cases h with
  | settled before t hturns hsettles => exact .settled before t hturns hsettles
  | spent before t hturns hspent he => exact .spent before t hturns hspent he
  | expired expiry hown htold he => exact .expired expiry hown htold.later he

/-- The timer of the own grant goes off behind the join of the last round. -/
theorem toldExpired_last {expiry : ℕ} {turns : List (Turn T)} (hturns : turns.length = rounds.length + 1)
    (htold : r.expiredDuring = true ∨ r.expiredBackoff = true) : ToldExpired expiry (rounds ++ [r]) turns :=
  .behind rounds [] r rfl hturns htold

theorem returns_of_paused (hturns : s'.turns.length = rounds.length + 1) (hpaused : Paused ownExpiresAt r s') :
    ∀ e, s'.ended = some e → ServeEnd ownExpiresAt (rounds ++ [r]) s'.turns e := by
  intro e he
  rcases hpaused with hnone | ⟨expiry, hown, hexpired, hended⟩
  · rw [hnone] at he
    exact absurd he nofun
  · rw [hended] at he
    exact .expired expiry hown (toldExpired_last hturns (Or.inr hexpired)) (Option.some.inj he).symm

/-- A further join keeps the delays right where its own is. -/
theorem ServeInv.of_turn {t : Turn T} (h : ServeInv ownExpiresAt rounds s) (hs : s.ended = none)
    (hturns : s'.turns = s.turns ++ [t])
    (hreturns : ∀ e, s'.ended = some e → ServeEnd ownExpiresAt (rounds ++ [r]) s'.turns e)
    (hrefused : t.kind ownExpiresAt = .definitiveRefusal →
      t.delay = some (rowDelay (refusalsInARow ownExpiresAt (s.turns ++ [t]))))
    (hdial : t.kind ownExpiresAt = .dialFailure →
      dialFailuresInARow ownExpiresAt (s.turns ++ [t]) < maxConsecutiveDcutrDialFailures →
      t.delay = some (rowDelay (dialFailuresInARow ownExpiresAt (s.turns ++ [t]))))
    (hgoes : s'.ended.isSome = true ∨ ¬ EndsServing ownExpiresAt s.turns t ∧
      s'.consecutiveRefusals = UInt32.ofNat (refusalsInARow ownExpiresAt (s.turns ++ [t])) ∧
      s'.consecutiveDialFailures = dialFailuresInARow ownExpiresAt (s.turns ++ [t])) :
    ServeInv ownExpiresAt (rounds ++ [r]) s' := by
  have hgoesOn (hnone : s'.ended = none) := hgoes.resolve_left (by rw [hnone]; exact Bool.false_ne_true)
  refine ⟨⟨hreturns, fun before t' after hsplit hends => ?_, ?_, ?_⟩, fun hnone => ?_, fun hnone => ?_,
    fun hnone => ?_, fun hnone => ?_, fun hnone => ?_⟩
  · rw [hturns] at hsplit
    rcases cut_of_append_singleton hsplit with ⟨hafter, rfl, rfl⟩ | ⟨after', hsplit⟩
    · exact ⟨hafter, hgoes.resolve_right (fun hno => hno.1 hends)⟩
    · exact absurd hends (h.goesOn hs before t' after' hsplit)
  · rw [hturns]
    exact h.refusalDelay.append hrefused
  · rw [hturns]
    exact h.dialDelay.append hdial
  · rw [hturns, List.length_append, List.length_append, h.joined hs]
    rfl
  · rw [hturns]
    exact (h.goesOn hs).append (hgoesOn hnone).1
  · rw [hturns]
    exact Nat.lt_of_not_le (fun hmany => (hgoesOn hnone).1 (Or.inr (Or.inr hmany)))
  · rw [hturns]
    exact (hgoesOn hnone).2.1
  · rw [hturns]
    exact (hgoesOn hnone).2.2

theorem not_dial_of_broken {t : Turn T} (h : (t.kind ownExpiresAt).inRow = false) :
    t.kind ownExpiresAt ≠ .dialFailure ∧ t.kind ownExpiresAt ≠ .definitiveRefusal := by
  constructor
  · intro hkind
    rw [hkind] at h
    exact absurd h nofun
  · intro hkind
    rw [hkind] at h
    exact absurd h nofun

/-- No join of another kind ends the loop before the dial failures in a row are too many. -/
theorem not_endsServing {before : List (Turn T)} {t : Turn T} (hdropped : t.kind ownExpiresAt ≠ .dropped)
    (hown : t.kind ownExpiresAt ≠ .ownGrantRefusal)
    (hfew : dialFailuresInARow ownExpiresAt (before ++ [t]) < maxConsecutiveDcutrDialFailures) :
    ¬ EndsServing ownExpiresAt before t := by
  rintro (hkind | hkind | hmany)
  · exact hdropped hkind
  · exact hown hkind
  · omega

theorem ServeInv.step (h : ServeInv ownExpiresAt rounds s) :
    ServeInv ownExpiresAt (rounds ++ [r]) (loopStep label true ownExpiresAt s r) := by
  cases hs : s.ended with
  | some e =>
    have hended : s.ended.isSome = true := by rw [hs]; rfl
    rw [loopStep_ended hended]
    refine ⟨⟨fun e he => (h.returns e he).later, h.stops, h.refusalDelay, h.dialDelay⟩,
      fun hnone => ?_, h.goesOn,
      h.few, h.refusals, h.dials⟩
    rw [hs] at hnone
    exact absurd hnone nofun
  | none =>
    have hpass : PassOf ownExpiresAt r s (ServeTurn ownExpiresAt r s)
      (loopStep label true ownExpiresAt s r) := serve_pass hs
    rcases hpass with ⟨expiry, hown, hover, hs'⟩ | ⟨t, hturns, -, -, hleads⟩
    · rw [hs']
      refine ⟨⟨fun e he => ?_, fun before t after hsplit hends => ?_, h.refusalDelay, h.dialDelay⟩, nofun,
        nofun,
        nofun, nofun, nofun⟩
      · exact .expired expiry hown (.inFront rounds [] r rfl (h.joined hs) hover) (Option.some.inj he).symm
      · exact absurd hends (h.goesOn hs before t after hsplit)
    · have hlength : (loopStep label true ownExpiresAt s r).turns.length = rounds.length + 1 := by
        rw [hturns, List.length_append, h.joined hs]
        rfl
      have hrefusals := h.refusals hs
      have hdials := h.dials hs
      cases hleads with
      | dropped expiry hkind hown htold hended =>
        refine h.of_turn hs hturns (fun e he => ?_) (by simp [hkind]) (by simp [hkind])
          (Or.inl (by rw [hended]; rfl))
        rw [hended] at he
        exact .expired expiry hown (toldExpired_last hlength (Or.inl htold)) (Option.some.inj he).symm
      | ownRefusal reason hkind hreason hended =>
        refine h.of_turn hs hturns (fun e he => ?_) (by simp [hkind]) (by simp [hkind])
          (Or.inl (by rw [hended]; rfl))
        rw [hended] at he
        exact .refused reason s.turns t hturns hreason (Option.some.inj he).symm
      | gaveUp why hkind hmany hended =>
        have hrow : dialFailuresInARow ownExpiresAt (s.turns ++ [t]) =
          dialFailuresInARow ownExpiresAt s.turns + 1 :=
          dialFailuresInARow_dial hkind
        refine h.of_turn hs hturns (fun e he => ?_) (by simp [hkind]) (fun _ hless => ?_)
          (Or.inl (by rw [hended]; rfl))
        · rw [hended] at he
          have hfew := h.few hs
          refine .gaveUp why ?_ (Option.some.inj he).symm
          rw [hturns, hrow]
          omega
        · rw [hrow] at hless
          omega
      | dial hkind hless hdelay hpaused hrefusals' hdials' =>
        have hrow : dialFailuresInARow ownExpiresAt (s.turns ++ [t]) =
          dialFailuresInARow ownExpiresAt s.turns + 1 :=
          dialFailuresInARow_dial hkind
        refine h.of_turn hs hturns (returns_of_paused hlength hpaused) (by simp [hkind])
          (fun _ _ => ?_) (Or.inr ?_)
        · rw [hdelay, hrow, hdials]
          rfl
        · refine ⟨not_endsServing (by simp [hkind]) (by simp [hkind]) (by rw [hrow]; omega), ?_, ?_⟩
          · rw [refusalsInARow_dial hkind, hrefusals', hrefusals]
          · rw [hrow, hdials', hdials]
      | refused hkind hdelay hpaused hrefusals' hdials' =>
        have hrow : refusalsInARow ownExpiresAt (s.turns ++ [t]) = refusalsInARow ownExpiresAt s.turns + 1 :=
          refusalsInARow_refused hkind
        have hnoDial : dialFailuresInARow ownExpiresAt (s.turns ++ [t]) = 0 :=
          dialFailuresInARow_broken (by simp [hkind])
        refine h.of_turn hs hturns (returns_of_paused hlength hpaused) (fun _ => ?_)
          (by simp [hkind]) (Or.inr ?_)
        · rw [hdelay, hrow, hrefusals]
          rfl
        · refine ⟨not_endsServing (by simp [hkind]) (by simp [hkind]) (by rw [hnoDial]; decide), ?_, ?_⟩
          · rw [hrow, hrefusals', hrefusals, UInt32.ofNat_add]
            rfl
          · rw [hnoDial, hdials']
      | other hbroken hdropped hkind hpaused hrefusals' hdials' =>
        obtain ⟨hdial, hrefused⟩ := not_dial_of_broken hbroken
        have hnoDial : dialFailuresInARow ownExpiresAt (s.turns ++ [t]) = 0 := dialFailuresInARow_broken hdial
        refine h.of_turn hs hturns (returns_of_paused hlength hpaused) (fun hk => absurd hk hrefused)
          (fun hk => absurd hk hdial) (Or.inr ?_)
        refine ⟨not_endsServing hdropped hkind (by rw [hnoDial]; decide), ?_, ?_⟩
        · rw [refusalsInARow_broken hbroken, hrefusals']
          rfl
        · rw [hnoDial, hdials']

/-- A further join of a one-shot loop. -/
theorem OneShotInv.of_turn {t : Turn T} (h : OneShotInv ownExpiresAt rounds s) (hs : s.ended = none)
    (hturns : s'.turns = s.turns ++ [t])
    (hends : ∀ e, s'.ended = some e → OneShotEnd ownExpiresAt (rounds ++ [r]) s'.turns e)
    (hsettled : t.settles = true → s'.ended.isSome = true ∧ (ownExpiresAt = none → s'.ended = t.result))
    (hgoes : s'.ended = none → t.settles = false ∧ s.attempt < oneShotDcutrAdmissionRetries ∧
      s'.attempt = s.attempt + 1) : OneShotInv ownExpiresAt (rounds ++ [r]) s' := by
  obtain ⟨hlength, hspent⟩ := h.attempts hs
  have hretried := h.retried hs
  have hone : s'.turns.length = s.turns.length + 1 := by
    rw [hturns, List.length_append]
    rfl
  refine ⟨⟨?_, hends, fun before t' after hsplit hsettles => ?_⟩, fun hnone => ?_, fun hnone => ?_,
    fun hnone t' ht' => ?_⟩
  · rw [hone, hlength]
    omega
  · rw [hturns] at hsplit
    rcases cut_of_append_singleton hsplit with ⟨hafter, -, rfl⟩ | ⟨after', hsplit⟩
    · exact ⟨hafter, hsettled hsettles⟩
    · rw [hretried t' (by rw [hsplit]; simp)] at hsettles
      exact absurd hsettles Bool.false_ne_true
  · rw [hone, h.joined hs, List.length_append]
    rfl
  · obtain ⟨-, hleft, hattempt⟩ := hgoes hnone
    rw [hone, hlength, hattempt]
    exact ⟨rfl, hleft⟩
  · rw [hturns] at ht'
    rcases List.mem_append.mp ht' with ht' | ht'
    · exact hretried t' ht'
    · rw [List.mem_singleton.mp ht']
      exact (hgoes hnone).1

theorem OneShotInv.step (h : OneShotInv ownExpiresAt rounds s) :
    OneShotInv ownExpiresAt (rounds ++ [r]) (loopStep label false ownExpiresAt s r) := by
  cases hs : s.ended with
  | some e =>
    have hended : s.ended.isSome = true := by rw [hs]; rfl
    rw [loopStep_ended hended]
    refine ⟨⟨h.joins, fun e he => (h.ends e he).later, h.returns⟩, fun hnone => ?_, h.attempts, h.retried⟩
    rw [hs] at hnone
    exact absurd hnone nofun
  | none =>
    have hpass : PassOf ownExpiresAt r s (OneShotTurn ownExpiresAt r s)
      (loopStep label false ownExpiresAt s r) :=
      oneShot_pass hs
    rcases hpass with ⟨expiry, hown, hover, hs'⟩ | ⟨t, hturns, -, -, hleads⟩
    · rw [hs']
      refine ⟨⟨h.joins, fun e he => ?_, fun before t after hsplit hsettles => ?_⟩, nofun, nofun, nofun⟩
      · exact .expired expiry hown (.inFront rounds [] r rfl (h.joined hs) hover) (Option.some.inj he).symm
      · have hmem : t ∈ s.turns := by
          change s.turns = before ++ t :: after at hsplit
          rw [hsplit]
          simp
        rw [h.retried hs t hmem] at hsettles
        exact absurd hsettles Bool.false_ne_true
    · have hlength : (loopStep label false ownExpiresAt s r).turns.length = rounds.length + 1 := by
        rw [hturns, List.length_append, h.joined hs]
        rfl
      have hgone {e : Option (LoopEnd T)} (he : e.isSome = true) (hnone : e = none) : False := by
        rw [hnone] at he
        exact absurd he Bool.false_ne_true
      have hnot (hfalse : t.settles = false) (htrue : t.settles = true) : False := by
        rw [hfalse] at htrue
        exact absurd htrue Bool.false_ne_true
      cases hleads with
      | settled hsettles hended hresult =>
        exact h.of_turn hs hturns (fun _ _ => .settled s.turns t hturns hsettles) (fun _ => ⟨hended, hresult⟩)
          (fun hnone => (hgone hended hnone).elim)
      | dropped expiry hsettles hown htold hended =>
        refine h.of_turn hs hturns (fun e he => ?_) (fun htrue => (hnot hsettles htrue).elim)
          (by simp [hended])
        rw [hended] at he
        exact .expired expiry hown (toldExpired_last hlength (Or.inl htold)) (Option.some.inj he).symm
      | spent hsettles hspent hended hjoined =>
        refine h.of_turn hs hturns (fun e he => ?_) (fun htrue => (hnot hsettles htrue).elim)
          (fun hnone => (hgone (hended ▸ hjoined) hnone).elim)
        obtain ⟨hattempts, hleft⟩ := h.attempts hs
        refine .spent s.turns t hturns ?_ (hended.symm.trans he)
        rw [hlength, ← h.joined hs]
        omega
      | retried hsettles hended hleft hattempt =>
        exact h.of_turn hs hturns (by simp [hended]) (fun htrue => (hnot hsettles htrue).elim)
          (fun _ => ⟨hsettles, hleft, hattempt⟩)

end

/-- The loop goes through its rounds and stops when it should. -/
structure LoopStops (serveLoop : Bool) (ownExpiresAt : Option ℕ) (rounds : List (Round T))
    (s : LoopState T) : Prop where
  goesThrough : GoesThrough ownExpiresAt rounds s
  startsInTime : StartsInTime ownExpiresAt s
  oneShot : serveLoop = false → OneShotStops ownExpiresAt rounds s
  serve : serveLoop = true → ServeStops ownExpiresAt rounds s

theorem runDcutrJoinLoop_append (label : String) (serveLoop : Bool) (ownExpiresAt : Option ℕ)
    (rounds : List (Round T))
    (r : Round T) : runDcutrJoinLoop label serveLoop ownExpiresAt (rounds ++ [r]) =
      loopStep label serveLoop ownExpiresAt (runDcutrJoinLoop label serveLoop ownExpiresAt rounds) r := by
  unfold runDcutrJoinLoop
  rw [List.foldl_append]
  rfl

theorem runDcutrJoinLoop_serve (label : String) (ownExpiresAt : Option ℕ) (rounds : List (Round T)) :
    ServeInv ownExpiresAt rounds (runDcutrJoinLoop label true ownExpiresAt rounds) := by
  induction rounds using List.reverseRecOn with
  | nil =>
    refine ⟨⟨nofun, fun before t after h => ?_, EachAfter.nil _, EachAfter.nil _⟩, fun _ => rfl,
      fun _ => EachAfter.nil _, fun _ => Nat.succ_pos 19, fun _ => rfl, fun _ => rfl⟩
    exact absurd h (by simp [runDcutrJoinLoop, LoopState.started])
  | append_singleton rounds r ih =>
    rw [runDcutrJoinLoop_append]
    exact ih.step

theorem runDcutrJoinLoop_oneShot (label : String) (ownExpiresAt : Option ℕ) (rounds : List (Round T)) :
    OneShotInv ownExpiresAt rounds (runDcutrJoinLoop label false ownExpiresAt rounds) := by
  induction rounds using List.reverseRecOn with
  | nil =>
    refine ⟨⟨Nat.zero_le _, nofun, fun before t after h => ?_⟩, fun _ => rfl,
      fun _ => ⟨rfl, Nat.zero_le _⟩, nofun⟩
    exact absurd h (by simp [runDcutrJoinLoop, LoopState.started])
  | append_singleton rounds r ih =>
    rw [runDcutrJoinLoop_append]
    exact ih.step

/-- A pass of either mode, as far as the round goes. -/
theorem loopStep_pass {label : String} {serveLoop : Bool} {ownExpiresAt : Option ℕ}
    {s : LoopState T} {r : Round T}
    (hs : s.ended = none) :
    PassOf ownExpiresAt r s (fun _ _ => True) (loopStep label serveLoop ownExpiresAt s r) := by
  have hweaken {leads : Turn T → LoopState T → Prop} {s' : LoopState T}
    (h : PassOf ownExpiresAt r s leads s') :
      PassOf ownExpiresAt r s (fun _ _ => True) s' := by
    rcases h with hfront | ⟨t, hturns, hjoin, hintime, -⟩
    · exact Or.inl hfront
    · exact Or.inr ⟨t, hturns, hjoin, hintime, trivial⟩
  cases serveLoop with
  | true => exact hweaken (serve_pass hs)
  | false => exact hweaken (oneShot_pass hs)

theorem runDcutrJoinLoop_passes (label : String) (serveLoop : Bool) (ownExpiresAt : Option ℕ)
    (rounds : List (Round T)) :
    GoesThrough ownExpiresAt rounds (runDcutrJoinLoop label serveLoop ownExpiresAt rounds) ∧
      StartsInTime ownExpiresAt (runDcutrJoinLoop label serveLoop ownExpiresAt rounds) := by
  induction rounds using List.reverseRecOn with
  | nil => exact ⟨.goesOn .nil rfl, nofun⟩
  | append_singleton rounds r ih =>
    obtain ⟨hthrough, hintime⟩ := ih
    rw [runDcutrJoinLoop_append]
    cases hs : (runDcutrJoinLoop label serveLoop ownExpiresAt rounds).ended with
    | some e =>
      have hended : (runDcutrJoinLoop label serveLoop ownExpiresAt rounds).ended.isSome = true := by
        rw [hs]; rfl
      rw [loopStep_ended hended]
      exact ⟨hthrough.later hended, hintime⟩
    | none =>
      have hpass : PassOf ownExpiresAt r _ (fun _ _ => True) (loopStep label serveLoop ownExpiresAt _ r) :=
        loopStep_pass hs
      exact ⟨hthrough.pass hs hpass, hintime.pass hpass⟩

/-- The loop stops when it should, whatever its joins come to and its clock says. -/
theorem dcutr_loop_stops (label : String) (serveLoop : Bool) (ownExpiresAt : Option ℕ)
    (rounds : List (Round T)) :
    LoopStops serveLoop ownExpiresAt rounds (runDcutrJoinLoop label serveLoop ownExpiresAt rounds) := by
  obtain ⟨hthrough, hintime⟩ := runDcutrJoinLoop_passes label serveLoop ownExpiresAt rounds
  refine ⟨hthrough, hintime, fun h => ?_, fun h => ?_⟩
  · rw [h]
    exact (runDcutrJoinLoop_oneShot label ownExpiresAt rounds).toOneShotStops
  · rw [h]
    exact (runDcutrJoinLoop_serve label ownExpiresAt rounds).toServeStops

end
end CtAgent.Channel.Dcutr
