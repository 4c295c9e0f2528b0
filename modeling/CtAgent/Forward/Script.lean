import CtAgent.Forward.PumpMoves

/-! One direction of a stream: what the sending half read against the messages in front of the
receiving half. Data counts up to the first Close. -/
namespace CtAgent.Forward
open CtAgent.Lib

/-- The bytes in front of the first message that ends the stream. -/
def flow : List StreamIn → Bytes
  | .data payload :: rest => payload ++ flow rest
  | _ => []

/-- The first message that ends the stream is a Close without a reason. -/
def closes : List StreamIn → Bool
  | .data _ :: rest => closes rest
  | .closed :: _ => true
  | _ => false

/-- No message ends the stream. -/
def flows : List StreamIn → Bool
  | .data _ :: rest => flows rest
  | [] => true
  | _ => false

/-- Behind data alone the messages go on. -/
theorem flows_append {ms : List StreamIn} (h : flows ms = true) (ns : List StreamIn) :
    flow (ms ++ ns) = flow ms ++ flow ns ∧ closes (ms ++ ns) = closes ns ∧ flows (ms ++ ns) = flows ns := by
  induction ms with
  | nil => exact ⟨rfl, rfl, rfl⟩
  | cons m ms ih =>
    cases m with
    | data payload =>
      obtain ⟨h1, h2, h3⟩ := ih h
      refine ⟨?_, h2, h3⟩
      calc flow (.data payload :: ms ++ ns) = payload ++ flow (ms ++ ns) := rfl
        _ = payload ++ (flow ms ++ flow ns) := by rw [h1]
        _ = flow (.data payload :: ms) ++ flow ns := by rw [flow, List.append_assoc]
    | closed => cases h
    | aborted => cases h

/-- Behind the end of a stream nothing counts. -/
theorem ends_append {ms : List StreamIn} (h : flows ms = false) (ns : List StreamIn) :
    flow (ms ++ ns) = flow ms ∧ closes (ms ++ ns) = closes ms ∧ flows (ms ++ ns) = false := by
  induction ms with
  | nil => cases h
  | cons m ms ih =>
    cases m with
    | data payload =>
      obtain ⟨h1, h2, h3⟩ := ih h
      exact ⟨congrArg (payload ++ ·) h1, h2, h3⟩
    | closed => exact ⟨rfl, rfl, rfl⟩
    | aborted => exact ⟨rfl, rfl, rfl⟩

theorem closes_of_flows {ms : List StreamIn} (h : flows ms = true) : closes ms = false := by
  have hms := (flows_append h []).2.1
  rw [List.append_nil] at hms
  exact hms

/-- A sending half: all bytes it read, the chunk in its hand, and whether it goes on. -/
structure Source where
  read : Bytes
  hand : Bytes
  sending : Bool

namespace Source

/-- What a step of the sending half does to it, and the messages it sends. -/
inductive Sends (s : Source) : List StreamIn → Source → Prop
  | same : Sends s [] s
  | read (chunk : Bytes) (hs : s.sending = true) (hh : s.hand = []) :
      Sends s [] ⟨s.read ++ chunk, chunk, true⟩
  | queued (hs : s.sending = true) : Sends s [.data s.hand] ⟨s.read, [], true⟩
  | closed (hs : s.sending = true) (hh : s.hand = []) : Sends s [.closed] ⟨s.read, [], false⟩
  | stop (more hand : Bytes) (hm : more ≠ [] → s.sending = true) (ms : List StreamIn)
      (hms : ms = [] ∨ ms = [.aborted]) : Sends s ms ⟨s.read ++ more, hand, false⟩

end Source

/-- What a receiving half has taken, `pre`, and the messages it gets, `ms`, are the beginning of what
was read; behind a Close without a reason they are all of it. While the sending half goes on and is
linked to the messages, only its hand is missing. -/
structure Script (s : Source) (linked : Bool) (pre : Bytes) (ms : List StreamIn) : Prop where
  part : pre ++ flow ms <+: s.read
  whole : closes ms = true → pre ++ flow ms = s.read ∧ s.sending = false
  going : s.sending = true → linked = true → flows ms = true ∧ pre ++ flow ms ++ s.hand = s.read

namespace Script
variable {s s' : Source} {linked : Bool} {pre : Bytes} {ms ns new : List StreamIn}

/-- The script of a stream that has not begun. -/
theorem start (linked sending : Bool) : Script ⟨[], [], sending⟩ linked [] [] where
  part := List.prefix_rfl
  whole h := by cases h
  going _ _ := ⟨rfl, rfl⟩

/-- A receiving half that is not linked any more gets the messages it was already handed. -/
theorem cut (h : Script s linked pre (ms ++ ns)) : Script s false pre ms := by
  cases hf : flows ms with
  | true =>
    obtain ⟨h1, -, -⟩ := flows_append hf ns
    refine ⟨List.IsPrefix.trans ?_ h.part, fun hc => ?_, fun _ hl => by cases hl⟩
    · rw [h1, ← List.append_assoc]
      exact List.prefix_append _ _
    · rw [closes_of_flows hf] at hc
      cases hc
  | false =>
    obtain ⟨h1, h2, -⟩ := ends_append hf ns
    have hpart := h.part
    have hwhole := h.whole
    rw [h1] at hpart hwhole
    rw [h2] at hwhole
    exact ⟨hpart, hwhole, fun _ hl => by cases hl⟩

/-- The receiving half takes the next data. -/
theorem take {payload : Bytes} (h : Script s linked pre (.data payload :: ms)) :
    Script s linked (pre ++ payload) ms := by
  have hflow : pre ++ flow (.data payload :: ms) = pre ++ payload ++ flow ms := by
    rw [flow, List.append_assoc]
  have hpart := h.part
  have hwhole := h.whole
  have hgoing := h.going
  rw [hflow] at hpart hwhole hgoing
  exact ⟨hpart, hwhole, hgoing⟩

/-- A sending half that does not go on reads nothing more. -/
theorem sends_read (h : s.Sends new s') (hs : s.sending = false) : s'.read = s.read ∧ s'.sending = false := by
  cases h with
  | same => exact ⟨rfl, hs⟩
  | read chunk hs' =>
    rw [hs] at hs'
    cases hs'
  | queued hs' =>
    rw [hs] at hs'
    cases hs'
  | closed => exact ⟨rfl, rfl⟩
  | stop more hand hm =>
    have hnil : more = [] := by
      by_contra hne
      rw [hm hne] at hs
      cases hs
    exact ⟨by rw [hnil, List.append_nil], rfl⟩

theorem sends_prefix (h : s.Sends new s') : s.read <+: s'.read := by
  cases h with
  | read => exact List.prefix_append _ _
  | stop => exact List.prefix_append _ _
  | _ => exact List.prefix_rfl

/-- What a sending half sends comes behind the messages it is linked to. -/
theorem sends (h : Script s linked pre ms) (hs : s.Sends new s') :
    Script s' linked pre (ms ++ if linked then new else []) := by
  have hpre := sends_prefix hs
  -- messages that are not linked stay as they are
  cases linked with
  | false =>
    rw [if_neg Bool.false_ne_true, List.append_nil]
    refine ⟨h.part.trans hpre, fun hc => ?_, fun _ hl => by cases hl⟩
    obtain ⟨hw, hstop⟩ := h.whole hc
    obtain ⟨hr, hstop'⟩ := sends_read hs hstop
    exact ⟨hw.trans hr.symm, hstop'⟩
  | true =>
    rw [if_pos rfl]
    cases hf : flows ms with
    | false =>
      -- the stream has ended, so nothing is added
      obtain ⟨h1, h2, h3⟩ := ends_append hf new
      have hstop : s.sending = false := by
        cases hsend : s.sending with
        | false => rfl
        | true =>
          rw [(h.going hsend rfl).1] at hf
          cases hf
      obtain ⟨hr, hstop'⟩ := sends_read hs hstop
      refine ⟨?_, fun hc => ?_, fun hg => ?_⟩
      · rw [h1, hr]
        exact h.part
      · rw [h2] at hc
        rw [h1, hr]
        exact ⟨(h.whole hc).1, hstop'⟩
      · rw [hstop'] at hg
        cases hg
    | true =>
      obtain ⟨h1, h2, h3⟩ := flows_append hf new
      rw [← List.append_nil ms] at h
      cases hs with
      | same => exact h
      | read chunk hgo hh =>
        have hall := (h.going hgo rfl).2
        rw [hh, List.append_nil, List.append_nil] at hall
        rw [List.append_nil]
        refine ⟨?_, fun hc => ?_, fun _ _ => ⟨hf, ?_⟩⟩
        · rw [hall]
          exact List.prefix_append _ _
        · rw [closes_of_flows hf] at hc
          cases hc
        · rw [hall]
      | queued hgo =>
        have hall := (h.going hgo rfl).2
        rw [List.append_nil] at hall
        have hdata : pre ++ flow (ms ++ [.data s.hand]) = s.read := by
          rw [h1, ← hall]
          simp [flow]
        refine ⟨?_, fun hc => ?_, fun _ _ => ⟨h3, ?_⟩⟩
        · rw [hdata]
        · rw [h2] at hc
          cases hc
        · rw [hdata, List.append_nil]
      | closed hgo hh =>
        have hall := (h.going hgo rfl).2
        rw [hh, List.append_nil, List.append_nil] at hall
        have hclose : pre ++ flow (ms ++ [.closed]) = s.read := by
          rw [h1, ← hall]
          simp [flow]
        refine ⟨?_, fun _ => ⟨hclose, rfl⟩, fun hg => by cases hg⟩
        rw [hclose]
      | stop more hand hm new hnew =>
        have hend : flow new = [] ∧ closes new = false := by
          rcases hnew with rfl | rfl
          · exact ⟨rfl, rfl⟩
          · exact ⟨rfl, rfl⟩
        refine ⟨?_, fun hc => ?_, fun hg => by cases hg⟩
        · have hpart := h.part
          rw [List.append_nil] at hpart
          rw [h1, hend.1, List.append_nil]
          exact hpart.trans hpre
        · rw [h2, hend.2] at hc
          cases hc

end Script

end CtAgent.Forward
