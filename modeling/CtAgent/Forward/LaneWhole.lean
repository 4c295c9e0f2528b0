import CtAgent.Forward.LaneExact

/-! No credit of a stream gets lost while the stream runs at both engines: in each direction the sender's
credit, the bytes on their way, the bytes the receiver owes and the credit on its way back are the whole
window. -/
namespace CtAgent.Forward
open CtAgent.Lib

/-- One direction of a stream accounts for its whole window. -/
def Full (i : UInt32) (snd rcv : View) (wire back : List Frame) : Prop :=
  snd.spend + dataLen i (snd.ctrl ++ snd.out) + dataLen i wire + rcv.owed +
    creditLen i (rcv.ctrl ++ rcv.out) + creditLen i back = fcWindow

section
variable {order initiates : Bool} {i : UInt32} {snd rcv v v' : View} {wire wire' back back' inp w : List Frame}
  {t t' : Task}

/-- Before a sender has the stream, nothing of it is spent. -/
theorem CreditFits.full (h : CreditFits i snd rcv wire back) (hn : snd.task = none) :
    Full i snd rcv wire back := by
  have hle := h fun t ht => by
    rw [hn] at ht
    cases ht
  have hs := View.spend_none hn
  unfold Full
  omega

theorem CreditFits.owed_le (h : CreditFits i snd rcv wire back) (hc : snd.Credited) : rcv.owed ≤ fcWindow := by
  have hle := h hc
  omega

theorem Full.sends (h : Full i v rcv wire back) (hs : ViewStep order initiates i v inp v' w)
    (hcount : v.Counted)
    (hr : v'.Runs t') (hi : i ≠ controlId) (hid : ∀ t, v.task = some t → t.id = i) (hb : back = inp ++ back') :
    Full i v' rcv (wire ++ w) back' := by
  have hstep := View.spend_exact hs hcount hr hi hid
  unfold Full at h ⊢
  rw [hb] at h
  simp only [dataLen_append, creditLen_append] at h hstep ⊢
  omega

theorem Full.receives (h : Full i snd v wire back) (hs : ViewStep order initiates i v inp v' w)
    (hcount : v.Counted)
    (ht : v'.Takes t') (hi : i ≠ controlId) (hid : ∀ t, v.task = some t → t.id = i) (hle : v.owed ≤ fcWindow)
    (hw : wire = inp ++ wire') : Full i snd v' wire' (back ++ w) := by
  have hstep := View.owed_exact hs hcount ht hi hid hle
  unfold Full at h ⊢
  rw [hw] at h
  simp only [dataLen_append, creditLen_append] at h hstep ⊢
  omega

/-- An engine that does not know the stream yet reads none of its bytes. -/
theorem Full.waits (h : Full i snd v wire back) (hs : ViewStep order initiates i v inp v' w)
    (hn : v.task = none) (hn' : v'.task = none) (hinp : dataLen i inp = 0) (hw : wire = inp ++ wire') :
    Full i snd v' wire' (back ++ w) := by
  have hstep := View.absent_exact hs hn'
  have ho := View.owed_none hn
  have ho' := View.owed_none hn'
  unfold Full at h ⊢
  rw [hw] at h
  simp only [dataLen_append, creditLen_append] at h hstep ⊢
  omega

theorem dataLen_of_items {fs : List Frame} (h : items i fs = []) : dataLen i fs = 0 := by
  induction fs with
  | nil => rfl
  | cons f fs ih =>
    rw [items_cons, List.append_eq_nil_iff] at h
    rw [dataLen_cons, ih h.2, Nat.add_zero]
    cases f with
    | data id payload =>
      by_cases hid : id = i
      · have hm := h.1
        simp [items, Frame.item, hid] at hm
      · simp [Frame.dataFor, hid]
    | _ => rfl

end

/-- What each direction of a stream accounts for, as long as its sender runs and its receiver takes what
comes or still has to read the Open. -/
structure Lane.Whole (i : UInt32) (l : Lane) : Prop where
  ab : ∀ t, l.a.Runs t → (l.b.task = none → 0 < l.toCome i) → (∀ u, l.b.task = some u → l.b.Takes u) →
    Full i l.a l.b l.ab l.ba
  ba : ∀ u t, l.b.Runs u → l.a.Takes t → Full i l.b l.a l.ba l.ab

/-- What the steps of a lane rely on. -/
structure Lane.Sound (i : UInt32) (l : Lane) : Prop where
  opens : l.Opens i
  countedA : l.a.Counted
  countedB : l.b.Counted
  idA : ∀ t, l.a.task = some t → t.id = i
  idB : ∀ t, l.b.task = some t → t.id = i
  fitsA : CreditFits i l.a l.b l.ab l.ba
  fitsB : CreditFits i l.b l.a l.ba l.ab
  lead : 0 < l.toCome i → led i l.forth

namespace Lane
variable {order : Bool} {i : UInt32} {l l' : Lane} {inp w : List Frame}

theorem credited_of {v : View} {t : Task} (h : v.Runs t) : v.Credited := by
  intro t' ht
  rw [h.task, Option.some.injEq] at ht
  exact ht ▸ h.credited

/-- A stream the accept engine has is no stream to come, and the initiate engine has it. -/
theorem Sound.known (h : l.Sound i) {u : Task} (hu : l.b.task = some u) :
    l.toCome i = 0 ∧ ∃ t, l.a.task = some t := by
  have hle := h.opens.toCome_le
  have hka := View.known_le l.a
  rw [View.known_some hu] at hle
  refine ⟨by omega, ?_⟩
  cases ha : l.a.task with
  | some t => exact ⟨t, rfl⟩
  | none =>
    rw [View.known_none ha] at hle
    omega

theorem Whole.stepA (h : l.Whole i) (hs : LaneStepA order i l l' inp w) (hl : l.Sound i) (hi : i ≠ controlId) :
    l'.Whole i := by
  constructor
  · intro t' hr hcome htakes
    rw [hs.b] at hcome htakes
    rw [hs.b, hs.ab]
    have hfull : Full i l.a l.b l.ab l.ba := by
      cases ht : l.a.task with
      | none => exact hl.fitsA.full ht
      | some t =>
        have hne : l.a.task ≠ none := by
          rw [ht]
          simp
        refine h.ab t (View.runs_before hs.step hr ht).1 (fun hn => ?_) htakes
        exact Nat.lt_of_lt_of_le (hcome hn) (toCome_stepA hs hne)
    exact hfull.sends hs.step hl.countedA hr hi hl.idA hs.ba
  · intro u t' hr ht
    rw [hs.b] at hr
    rw [hs.b, hs.ab]
    obtain ⟨-, t, ha⟩ := hl.known hr.task
    have hfull := h.ba u t hr (View.takes_before hs.step ht ha)
    exact hfull.receives hs.step hl.countedA ht hi hl.idA (hl.fitsB.owed_le (credited_of hr)) hs.ba

/-- While the Open of a stream is to come, what the accept engine reads is none of its bytes. -/
theorem Sound.no_bytes (h : l.Sound i) (hs : LaneStepB order i l l' inp w) (hc : 0 < l'.toCome i) :
    dataLen i inp = 0 := by
  have hcome := toCome_stepB hs
  have hle := h.opens.toCome_le
  have hka := View.known_le l.a
  have hled := h.lead (by omega)
  rw [forth, hs.ab, List.append_assoc, List.append_assoc, led_append] at hled
  exact dataLen_of_items (items_of_led hled.1 (by omega))

theorem Whole.stepB (h : l.Whole i) (hs : LaneStepB order i l l' inp w) (hl : l.Sound i) (hi : i ≠ controlId) :
    l'.Whole i := by
  have hcome := toCome_stepB hs
  constructor
  · intro t hr hto htakes
    rw [hs.a] at hr
    rw [hs.a, hs.ba]
    cases hn' : l'.b.task with
    | none =>
      -- the Open is still to come
      have hn := some_stays hs.step hn'
      have hto' := hto hn'
      have hfull := h.ab t hr (fun _ => by omega) (fun u hu => by
        rw [hn] at hu
        cases hu)
      exact hfull.waits hs.step hn hn' (hl.no_bytes hs hto') hs.ab
    | some u' =>
      have htake := htakes u' hn'
      have hfull : Full i l.a l.b l.ab l.ba := by
        refine h.ab t hr (fun hn => ?_) (fun u hu => View.takes_before hs.step htake hu)
        -- the Open is read right now
        obtain ⟨target, hinp⟩ := View.opened_input hs.step hn (by rw [hn']; simp)
        have hone : openCount i inp = 1 := by
          rw [hinp]
          simp [Frame.opens]
        omega
      exact hfull.receives hs.step hl.countedB htake hi hl.idB (hl.fitsA.owed_le (credited_of hr)) hs.ab
  · intro u' t hr ht
    rw [hs.a] at ht
    rw [hs.a, hs.ba]
    have hfull : Full i l.b l.a l.ba l.ab := by
      cases hu : l.b.task with
      | none => exact hl.fitsB.full hu
      | some u => exact h.ba u t (View.runs_before hs.step hr hu).1 ht
    exact hfull.sends hs.step hl.countedB hr hi hl.idB hs.ab

end Lane

end CtAgent.Forward
