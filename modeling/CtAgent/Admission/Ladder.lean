import CtAgent.Admission.Errors

/-! The walk over the fallback ladder of a channel join. What the network does at one rung comes in as
that rung's answer. -/
namespace CtAgent.Admission
open CtAgent.Lib CtAgent.Channel

inductive ChannelDialKind where
  | direct | frontDoor | frontDoorBoring
  deriving DecidableEq, Repr

def ChannelDialKind.isFrontDoor : ChannelDialKind → Bool
  | .direct => false
  | .frontDoor | .frontDoorBoring => true

inductive DirectDial where
  | connected
  | failed (e : ForeignError)
  | timedOut
  deriving DecidableEq, Repr

/-- One rung with what happens when it is tried: the QUIC dial of a direct rung, the TLS connect of a
front-door rung, and the join on the connection that stands. -/
structure ChannelDialRung where
  kind : ChannelDialKind
  direct : DirectDial
  frontDoor : Except ForeignError Unit
  exchange : Except ForeignError ChannelJoinOutcome

def dialPeerDirect : DirectDial → Except ChannelDialError Unit
  | .connected => .ok ()
  | .failed e => .error (.failed (.foreign e))
  | .timedOut => .error .unreachable

/-- `last` is the error of the rung tried last. -/
def dialLadderFrom {R C : Type*} (dial : R → Except ChannelDialError C)
    (last : Option ChannelDialError) : List R → Except ChannelDialError C
  | [] => .error (last.getD .unreachable)
  | rung :: rungs =>
    match dial rung with
    | .ok conn => .ok conn
    | .error e => dialLadderFrom dial (some e) rungs

def dialLadder {R C : Type*} (dial : R → Except ChannelDialError C) (rungs : List R) :
    Except ChannelDialError C :=
  dialLadderFrom dial none rungs

namespace ChannelDialRung

/-- The closure `present_channel_join_via_ladder` hands to the walk. -/
def present (rung : ChannelDialRung) : Except ChannelDialError ChannelJoinOutcome :=
  let connected : Except ChannelDialError Unit :=
    if rung.kind.isFrontDoor then
      match rung.frontDoor with
      | .ok () => .ok ()
      | .error e => .error (.connectFailed (.foreign e))
    else dialPeerDirect rung.direct
  match connected, rung.exchange with
  | .error e, _ => .error e
  | .ok (), .error e => .error (.failed (.foreign e))
  -- a park expiry ends the walk as an outcome, a refusal falls through to the next rung
  | .ok (), .ok .parkExpired => .ok .parkExpired
  | .ok (), .ok other =>
    match rejectRefusedOutcome other with
    | .ok outcome => .ok outcome
    | .error e => .error (.failed e)

end ChannelDialRung

def presentChannelJoinViaLadder (rungs : List ChannelDialRung) :
    Except BoxError ChannelJoinOutcome :=
  match dialLadder ChannelDialRung.present rungs with
  | .ok outcome => .ok outcome
  | .error e => .error (.dial e)

namespace ChannelDialRung

/-- The transport error of a rung that could not be reached or whose exchange broke off, apart from
the timeout of a direct dial. -/
def transportError (rung : ChannelDialRung) : Option ForeignError :=
  match rung.kind.isFrontDoor, rung.frontDoor, rung.direct, rung.exchange with
  | true, .error e, _, _ => some e
  | true, .ok (), _, .error e => some e
  | false, _, .failed e, _ => some e
  | false, _, .connected, .error e => some e
  | _, _, _, _ => none

/-- What the edge answered on this rung. -/
def answer (rung : ChannelDialRung) : Option ChannelJoinOutcome :=
  match rung.kind.isFrontDoor, rung.frontDoor, rung.direct, rung.exchange with
  | true, .ok (), _, .ok outcome => some outcome
  | false, _, .connected, .ok outcome => some outcome
  | _, _, _, _ => none

/-- Admitted or park-expired. -/
def Carries (rung : ChannelDialRung) (outcome : ChannelJoinOutcome) : Prop :=
  rung.answer = some outcome ∧ ∀ category, outcome ≠ .refused category

/-- The edge refused the join on this rung. -/
def Refused (rung : ChannelDialRung) (category : Option String) : Prop :=
  rung.answer = some (.refused category)

end ChannelDialRung

theorem dialLadderFrom_ok_iff {R C : Type*} {dial : R → Except ChannelDialError C} {c : C}
    {rungs : List R} {last : Option ChannelDialError} :
    dialLadderFrom dial last rungs = .ok c ↔
      ∃ pre r post, rungs = pre ++ r :: post ∧ (∀ q ∈ pre, ∃ e, dial q = .error e) ∧
        dial r = .ok c := by
  induction rungs generalizing last with
  | nil => simp [dialLadderFrom]
  | cons rung rungs ih =>
    unfold dialLadderFrom
    constructor
    · intro h
      cases hd : dial rung with
      | ok conn =>
        rw [hd] at h
        exact ⟨[], rung, rungs, rfl, by simp, hd.trans h⟩
      | error e =>
        rw [hd] at h
        obtain ⟨pre, r, post, rfl, hpre, hr⟩ := ih.mp h
        refine ⟨rung :: pre, r, post, rfl, ?_, hr⟩
        simpa [hd] using hpre
    · rintro ⟨pre, r, post, heq, hpre, hr⟩
      cases pre with
      | nil =>
        obtain ⟨rfl, rfl⟩ := List.cons.inj heq
        rw [hr]
      | cons q pre =>
        obtain ⟨rfl, rfl⟩ := List.cons.inj heq
        obtain ⟨e, he⟩ := hpre rung List.mem_cons_self
        rw [he]
        exact ih.mpr ⟨pre, r, post, rfl, fun q hq => hpre q (List.mem_cons_of_mem _ hq), hr⟩

/-- Where every rung fails, the walk ends in the last rung's error. -/
theorem dialLadderFrom_error {R C : Type*} {dial : R → Except ChannelDialError C}
    {rungs : List R} {final : R} {last : Option ChannelDialError} {e : ChannelDialError}
    (hpre : ∀ q ∈ rungs, ∃ e, dial q = .error e) (hfinal : dial final = .error e) :
    dialLadderFrom dial last (rungs ++ [final]) = .error e := by
  induction rungs generalizing last with
  | nil => simp [dialLadderFrom, hfinal]
  | cons rung rungs ih =>
    obtain ⟨e', he'⟩ := hpre rung List.mem_cons_self
    rw [List.cons_append, dialLadderFrom, he']
    exact ih (fun q hq => hpre q (List.mem_cons_of_mem _ hq))

theorem dialLadderFrom_failed {R C : Type*} {dial : R → Except ChannelDialError C}
    {rungs : List R} {last : Option ChannelDialError} {e : ChannelDialError}
    (h : dialLadderFrom dial last rungs = .error e) : ∀ q ∈ rungs, ∃ e, dial q = .error e := by
  induction rungs generalizing last with
  | nil => simp
  | cons rung rungs ih =>
    rw [dialLadderFrom] at h
    cases hd : dial rung with
    | ok conn => simp [hd] at h
    | error e' =>
      rw [hd] at h
      simpa [hd] using ih h

namespace ChannelDialRung

/-- Everything a rung can come to. -/
theorem present_cases (rung : ChannelDialRung) :
    (∃ outcome, rung.Carries outcome ∧ rung.present = .ok outcome) ∨
    (∃ category, rung.Refused category ∧
      rung.present = .error (.failed (boxedWithCategory brokerRefusal category))) ∨
    (∃ e, rung.answer = none ∧ rung.transportError = some e ∧
      (rung.present = .error (.connectFailed (.foreign e)) ∨
        rung.present = .error (.failed (.foreign e)))) ∨
    (rung.answer = none ∧ rung.transportError = none ∧ rung.present = .error .unreachable) := by
  obtain ⟨kind, direct, frontDoor, exchange⟩ := rung
  unfold Carries Refused answer transportError present
  cases hk : kind.isFrontDoor with
  | true =>
    rcases frontDoor with e | ⟨⟩
    · simp
    rcases exchange with e | outcome
    · simp
    · cases outcome <;> simp [rejectRefusedOutcome]
  | false =>
    cases direct with
    | failed e => simp [dialPeerDirect]
    | timedOut => simp [dialPeerDirect]
    | connected =>
      rcases exchange with e | outcome
      · simp [dialPeerDirect]
      · cases outcome <;> simp [rejectRefusedOutcome, dialPeerDirect]

theorem present_ok_iff (rung : ChannelDialRung) (outcome : ChannelJoinOutcome) :
    rung.present = .ok outcome ↔ rung.Carries outcome := by
  obtain ⟨o, hc, hp⟩ | ⟨category, hr, hp⟩ | ⟨e, ha, -, hp | hp⟩ | ⟨ha, -, hp⟩ := rung.present_cases
  · have hinj : rung.Carries outcome ↔ o = outcome := by
      constructor
      · intro h
        exact Option.some.inj (hc.1.symm.trans h.1)
      · rintro rfl
        exact hc
    rw [hp, hinj, Except.ok.injEq]
  · rw [hp]
    simp only [reduceCtorEq, false_iff]
    rintro ⟨ha, hne⟩
    exact hne category (Option.some.inj (ha.symm.trans hr))
  all_goals simp [hp, Carries, ha]

theorem present_error_iff (rung : ChannelDialRung) :
    (∃ e, rung.present = .error e) ↔ ∀ outcome, ¬ rung.Carries outcome := by
  simp only [← present_ok_iff]
  cases rung.present <;> simp

/-- The error of a rung is a refusal for the classifiers if the edge refused it there, or if the
transport error itself reads like one. -/
def LooksRefused (rung : ChannelDialRung) : Prop :=
  (∃ category, rung.Refused category) ∨
    ∃ e, rung.transportError = some e ∧ contains e.text refusalText = true

end ChannelDialRung

theorem connectFailed_definitive (e : ForeignError) :
    isDefinitiveAdmissionRefusal (.dial (.connectFailed (.foreign e))) =
      contains e.text refusalText := by
  show contains ("front-door TLS connect failed: " ++ e.text) refusalText = _
  exact contains_append_left e.text (by decide) (by decide)

theorem failed_definitive (e : ForeignError) :
    isDefinitiveAdmissionRefusal (.dial (.failed (.foreign e))) = contains e.text refusalText := by
  show contains ("direct dial failed: " ++ e.text) refusalText = _
  exact contains_append_left e.text (by decide) (by decide)

theorem unreachable_definitive : isDefinitiveAdmissionRefusal (.dial .unreachable) = false := by
  decide

theorem refused_admissionRefusal (category : Option String) :
    ∃ text, (BoxError.dial (.failed (boxedWithCategory brokerRefusal category))).admissionRefusal =
      some ⟨text, category⟩ := by
  have h := boxedWithCategory_refusal brokerRefusal category
  obtain ⟨⟨text, cat⟩, hr, rfl⟩ := Option.map_eq_some_iff.mp h
  exact ⟨text, hr⟩

namespace ChannelDialRung

variable {rung : ChannelDialRung} {e : ChannelDialError}

theorem error_definitive (h : rung.present = .error e) :
    isDefinitiveAdmissionRefusal (.dial e) = true ↔ rung.LooksRefused := by
  unfold LooksRefused
  obtain ⟨o, -, hp⟩ | ⟨category, hr, hp⟩ | ⟨f, ha, hf, hp | hp⟩ | ⟨ha, hf, hp⟩ := rung.present_cases
  all_goals
    rw [hp] at h
    cases h
  · obtain ⟨text, hrefusal⟩ := refused_admissionRefusal category
    have hd : isDefinitiveAdmissionRefusal
        (.dial (.failed (boxedWithCategory brokerRefusal category))) = true := by
      simp [isDefinitiveAdmissionRefusal, hrefusal]
    exact iff_of_true hd (.inl ⟨category, hr⟩)
  · simp [connectFailed_definitive, Refused, ha, hf]
  · simp [failed_definitive, Refused, ha, hf]
  · simp [unreachable_definitive, Refused, ha, hf]

theorem error_own_end (h : rung.present = .error e) (ownExpiresAt : Option ℕ) (now : ℕ) :
    (ownGrantRefusal (.dial e) ownExpiresAt now).isSome = true ↔
      ∃ category, rung.Refused category ∧ ownEndCategory ownExpiresAt now category = true := by
  rw [ownGrantRefusal_isSome]
  obtain ⟨o, -, hp⟩ | ⟨category, hr, hp⟩ | ⟨f, ha, -, hp | hp⟩ | ⟨ha, -, hp⟩ := rung.present_cases
  all_goals
    rw [hp] at h
    cases h
  · obtain ⟨text, hrefusal⟩ := refused_admissionRefusal category
    rw [hrefusal, Option.any_some]
    constructor
    · intro hown
      exact ⟨category, hr, hown⟩
    · rintro ⟨c, hc, hown⟩
      have hcat : category = c := by simpa [Refused] using hr.symm.trans hc
      rwa [hcat]
  all_goals simp [BoxError.admissionRefusal, ChannelDialError.admissionRefusal, Refused, ha]

end ChannelDialRung

theorem presentChannelJoinViaLadder_ok_iff (rungs : List ChannelDialRung)
    (outcome : ChannelJoinOutcome) :
    presentChannelJoinViaLadder rungs = .ok outcome ↔
      ∃ pre rung post, rungs = pre ++ rung :: post ∧
        (∀ q ∈ pre, ∀ o, ¬ ChannelDialRung.Carries q o) ∧ rung.Carries outcome := by
  have hwalk : presentChannelJoinViaLadder rungs = .ok outcome ↔
      dialLadder ChannelDialRung.present rungs = .ok outcome := by
    unfold presentChannelJoinViaLadder
    cases dialLadder ChannelDialRung.present rungs <;> simp
  rw [hwalk, dialLadder, dialLadderFrom_ok_iff]
  simp only [ChannelDialRung.present_error_iff, ChannelDialRung.present_ok_iff]

/-- Without a rung that carries, the walk ends in the last rung's own error. -/
theorem presentChannelJoinViaLadder_error {rungs : List ChannelDialRung} {last : ChannelDialRung}
    (h : ∀ q ∈ rungs ++ [last], ∀ o, ¬ q.Carries o) :
    ∃ e, last.present = .error e ∧
      presentChannelJoinViaLadder (rungs ++ [last]) = .error (.dial e) := by
  have hfail (q : ChannelDialRung) (hq : q ∈ rungs ++ [last]) : ∃ e, q.present = .error e :=
    q.present_error_iff.mpr (h q hq)
  obtain ⟨e, he⟩ := hfail last (by simp)
  refine ⟨e, he, ?_⟩
  have hwalk : dialLadder ChannelDialRung.present (rungs ++ [last]) = .error e :=
    dialLadderFrom_error (fun q hq => hfail q (by simp [hq])) he
  rw [presentChannelJoinViaLadder, hwalk]

theorem presentChannelJoinViaLadder_failed {rungs : List ChannelDialRung} {e : BoxError}
    (h : presentChannelJoinViaLadder rungs = .error e) :
    ∀ q ∈ rungs, ∀ o, ¬ ChannelDialRung.Carries q o := by
  intro q hq
  unfold presentChannelJoinViaLadder at h
  cases hw : dialLadder ChannelDialRung.present rungs with
  | ok outcome => simp [hw] at h
  | error e' => exact q.present_error_iff.mp (dialLadderFrom_failed hw q hq)

/-- What a caller of the ladder relies on: the first rung that carries decides, and a refusal on any
rung is one for the classifiers when nothing carries. -/
def RefusalKept (rungs : List ChannelDialRung) (ownExpiresAt : Option ℕ) (now : ℕ) : Prop :=
  (∀ outcome, presentChannelJoinViaLadder rungs = .ok outcome ↔
    ∃ pre rung post, rungs = pre ++ rung :: post ∧
      (∀ q ∈ pre, ∀ o, ¬ ChannelDialRung.Carries q o) ∧ rung.Carries outcome) ∧
  ∀ e, presentChannelJoinViaLadder rungs = .error e →
    (∃ rung ∈ rungs, ∃ category, rung.Refused category) →
      isDefinitiveAdmissionRefusal e = true ∧
      ((∃ rung ∈ rungs, rung.Refused (some grantRevokedCategory)) →
        (ownGrantRefusal e ownExpiresAt now).isSome = true)

/-- The last rung of the ladder fails like a refusal, and like an end of the own grant if some rung
was answered that the grant is revoked. -/
def LastRungTells (rungs : List ChannelDialRung) (ownExpiresAt : Option ℕ) (now : ℕ) : Prop :=
  ∃ pre last, rungs = pre ++ [last] ∧ last.LooksRefused ∧
    ((∃ rung ∈ rungs, rung.Refused (some grantRevokedCategory)) →
      ∃ category, last.Refused category ∧ ownEndCategory ownExpiresAt now category = true)

theorem ladder_keeps_refusal_iff (rungs : List ChannelDialRung) (ownExpiresAt : Option ℕ)
    (now : ℕ) :
    RefusalKept rungs ownExpiresAt now ↔
      (∃ rung ∈ rungs, ∃ outcome, rung.Carries outcome) ∨
      (∀ rung ∈ rungs, ∀ category, ¬ rung.Refused category) ∨
      LastRungTells rungs ownExpiresAt now := by
  have hfirst := presentChannelJoinViaLadder_ok_iff rungs
  by_cases hcarry : ∃ rung ∈ rungs, ∃ outcome, rung.Carries outcome
  · refine iff_of_true ⟨hfirst, ?_⟩ (.inl hcarry)
    intro e he
    obtain ⟨rung, hmem, outcome, hc⟩ := hcarry
    exact absurd hc (presentChannelJoinViaLadder_failed he rung hmem outcome)
  have hnone : ∀ q ∈ rungs, ∀ o, ¬ ChannelDialRung.Carries q o := by
    intro q hq o hc
    exact hcarry ⟨q, hq, o, hc⟩
  by_cases hrefused : ∃ rung ∈ rungs, ∃ category, rung.Refused category
  · have hsome : ¬ ∀ rung ∈ rungs, ∀ category, ¬ rung.Refused category := by
      push Not
      exact hrefused
    simp only [hcarry, hsome, false_or]
    -- all rungs failed and one was refused: what counts is the error of the last one
    obtain rfl | ⟨pre, last, rfl⟩ := List.eq_nil_or_concat' rungs
    · simp at hrefused
    obtain ⟨e, he, hwalk⟩ := presentChannelJoinViaLadder_error hnone
    constructor
    · rintro ⟨-, herr⟩
      obtain ⟨hdef, hown⟩ := herr (.dial e) hwalk hrefused
      refine ⟨pre, last, rfl, (last.error_definitive he).mp hdef, ?_⟩
      intro hrevoked
      exact (ChannelDialRung.error_own_end he ownExpiresAt now).mp (hown hrevoked)
    · rintro ⟨pre', last', heq, hlooks, hown⟩
      obtain ⟨rfl, hlast⟩ := List.append_inj' heq rfl
      obtain rfl : last = last' := by simpa using hlast
      refine ⟨hfirst, ?_⟩
      intro e' he' _
      obtain rfl : BoxError.dial e = e' := by simpa [hwalk] using he'
      refine ⟨(ChannelDialRung.error_definitive he).mpr hlooks, ?_⟩
      intro hrevoked
      exact (ChannelDialRung.error_own_end he ownExpiresAt now).mpr (hown hrevoked)
  · refine iff_of_true ⟨hfirst, fun e _ h => absurd h hrefused⟩ (.inr (.inl ?_))
    intro rung hmem category h
    exact hrefused ⟨rung, hmem, category, h⟩

/-- The direct rung is answered that the grant is revoked, the front door cannot be reached: the walk
ends in a connect failure, which no classifier takes for a refusal. -/
theorem revoked_then_unconnected :
    ¬ RefusalKept
      [⟨.direct, .connected, .ok (), .ok (.refused (some "grant-revoked"))⟩,
        ⟨.frontDoor, .connected, .error ⟨"Connection refused (os error 111)", none⟩, .ok .parkExpired⟩]
      none 0 := by
  rintro ⟨-, h⟩
  obtain ⟨hdef, -⟩ := h (.dial (.connectFailed (.foreign ⟨"Connection refused (os error 111)", none⟩)))
    rfl ⟨_, List.mem_cons_self, some "grant-revoked", rfl⟩
  exact absurd hdef (by decide)

end CtAgent.Admission
