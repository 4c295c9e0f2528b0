import CtAgent.Forward.Feed
import CtAgent.Forward.LaneCredit

/-! The bytes of one stream at both engines, in runs in which no frame overtakes the Open of its stream. -/
namespace CtAgent.Forward
open CtAgent.Lib

/-- No message of stream `i` is in front of its first Open. -/
def led (i : UInt32) : List Frame → Prop
  | [] => True
  | f :: fs => f.item i = none ∧ (f.opens i = false → led i fs)

section
variable {i : UInt32} {fs gs : List Frame} {f : Frame}

theorem led_append : led i (fs ++ gs) ↔ led i fs ∧ (openCount i fs = 0 → led i gs) := by
  induction fs with
  | nil => simp [led]
  | cons f fs ih =>
    rw [List.cons_append, led, led, ih, openCount_cons]
    cases hf : f.opens i with
    | true => simp
    | false => simp [and_assoc]

theorem led_of_items (h : items i fs = []) : led i fs := by
  induction fs with
  | nil => trivial
  | cons f fs ih =>
    rw [items_cons, List.append_eq_nil_iff] at h
    refine ⟨?_, fun _ => ih h.2⟩
    cases hf : f.item i with
    | none => rfl
    | some m =>
      have hm := h.1
      simp [items, hf] at hm

theorem items_of_led (h : led i fs) (ho : openCount i fs = 0) : items i fs = [] := by
  induction fs with
  | nil => rfl
  | cons f fs ih =>
    rw [openCount_cons] at ho
    have hf : f.opens i = false := by
      cases hf : f.opens i with
      | true =>
        rw [hf] at ho
        simp at ho
      | false => rfl
    rw [items_cons, items_single h.1, List.nil_append]
    exact ih (h.2 hf) (by omega)

theorem item_streamOf {m : StreamIn} (hi : i ≠ controlId) (h : f.item i = some m) : f.streamOf = some i := by
  cases f with
  | «open» id target => cases h
  | data id payload =>
    simp only [Frame.item] at h
    split at h
    · rename_i hid
      simp [Frame.streamOf, hid, hi]
    · cases h
  | close id reason =>
    simp only [Frame.item] at h
    split at h
    · rename_i hid
      simp [Frame.streamOf, hid]
    · cases h

theorem openCount_zero (h : fs.any (Frame.opens i) = false) : openCount i fs = 0 := by
  rw [List.any_eq_false] at h
  exact List.countP_eq_zero.mpr h

end

/-- A task that still opens its stream sends no message before. -/
theorem Task.moves_unopened_items {t : Task} {m : PumpMove} {orphan : Bool} {i : UInt32}
    (hm : t.Moves orphan m)
    (hu : t.unopened = true) (h : 0 < openCount i m.frames ∨ m.task.unopened = true) :
    items i m.frames = [] := by
  have hno : t.phase ≠ .pumping := by
    intro hp
    rw [Task.unopened, hp] at hu
    cases hu
  cases hm with
  | stop frames ha hf =>
    rcases hf with rfl | ⟨why, rfl⟩
    · rfl
    · rcases h with h | h
      · simp [stop, Frame.opens] at h
      · simp [stop, Task.unopened, finish] at h
  | opened target hp => rfl
  | queued chunk hp => exact absurd hp hno
  | closed hp => exact absurd hp hno
  | wroteReported payload rest hp => exact absurd hp hno
  | reported hp => exact absurd hp hno
  | _ => rfl

section
variable {order initiates : Bool} {i : UInt32} {v v' : View} {inp w : List Frame}

theorem View.known_le (v : View) : v.known ≤ 1 := by
  unfold View.known
  split <;> omega

theorem View.known_none (h : v.task = none) : v.known = 0 := by
  simp [View.known, h]

/-- The Open of a stream stays in front of its messages. -/
theorem View.led_step (hs : ViewStep true initiates i v inp v' w) (hi : i ≠ controlId) {t : Task}
    (ht : v.task = some t) (hctrl : items i v.ctrl = []) (wire : List Frame)
    (hled : led i (wire ++ v.ctrl ++ v.out))
    (hcome : 0 < openCount i (wire ++ v.ctrl ++ v.out) + v.unopened)
    (hcome' : 0 < openCount i (wire ++ w ++ v'.ctrl ++ v'.out) + v'.unopened) :
    led i (wire ++ w ++ v'.ctrl ++ v'.out) := by
  have hkeep : v'.ctrl = v.ctrl → v'.out = v.out → w = [] → led i (wire ++ w ++ v'.ctrl ++ v'.out) := by
    intro hc ho hw
    rw [hc, ho, hw, List.append_nil]
    exact hled
  have hnone : v.task = none → led i (wire ++ w ++ v'.ctrl ++ v'.out) := by
    intro hn
    rw [ht] at hn
    cases hn
  have hhanded : ∀ {u : View} {t : Task} {msg : StreamIn}, u.ctrl = v.ctrl → u.out = v.out →
    Handed u t msg v' →
      w = [] → led i (wire ++ w ++ v'.ctrl ++ v'.out) := by
    intro u t msg hc ho hv hw
    obtain ⟨-, -, -, -, hc', ho'⟩ := handed_task hv
    exact hkeep (hc'.trans hc) (ho'.trans ho) hw
  cases hs with
  | connected session target hs' hn => exact hnone hn
  | connectedPlain target hs' hn => exact hnone hn
  | opened c session target hs' hn => exact hnone hn
  | openRefused target reason hs' hn => exact hnone hn
  | pump u m orphan hu hm =>
    rw [ht, Option.some.injEq] at hu
    subst hu
    have hassoc : wire ++ [] ++ v.ctrl ++ (v.out ++ m.frames) = wire ++ v.ctrl ++ v.out ++ m.frames := by
      simp only [List.append_nil, List.append_assoc]
    rw [hassoc] at hcome' ⊢
    rw [led_append]
    refine ⟨hled, fun hzero => led_of_items ?_⟩
    -- the Open is still to come, so the task still opens its stream
    have hu : t.unopened = true := by
      rw [hzero, View.unopened_some ht] at hcome
      split at hcome
      · assumption
      · omega
    refine Task.moves_unopened_items hm hu ?_
    rw [openCount_append, hzero, View.unopened_some rfl] at hcome'
    split at hcome'
    · exact .inr ‹_›
    · exact .inl (by omega)
  | delivered v' u payload hu he hw hx hv => exact hhanded rfl rfl hv rfl
  | closed v' u hu he hw hv => exact hhanded rfl rfl hv rfl
  | aborted v' u reason hu he hw hv => exact hhanded (u := { v with entry := false }) rfl rfl hv rfl
  | pollCtrl f ctrl hq =>
    rw [hq] at hled
    have hassoc : wire ++ [f] ++ ctrl ++ v.out = wire ++ f :: ctrl ++ v.out := by
      simp only [List.append_assoc, List.cons_append, List.nil_append]
    rw [hassoc]
    exact hled
  | pollOut f out hq hg =>
    rw [hq] at hled
    simp only [List.append_assoc, led_append] at hled ⊢
    obtain ⟨hwire, hrest⟩ := hled
    refine ⟨hwire, fun hzero => ?_⟩
    obtain ⟨-, hout⟩ := hrest hzero
    -- a message of the stream passes no Open of it
    have hf : f.item i = none := by
      cases hitem : f.item i with
      | none => rfl
      | some m =>
        have hpass := hg rfl
        rw [Frame.overtakes, item_streamOf hi hitem, Option.any_some] at hpass
        have hle := (hout (openCount_zero hpass)).1
        rw [hitem] at hle
        cases hle
    refine ⟨⟨hf, fun _ => trivial⟩, fun hopens => ⟨led_of_items hctrl, fun hctrl0 => ?_⟩⟩
    refine (hout hctrl0).2 ?_
    cases ho : f.opens i with
    | false => rfl
    | true =>
      rw [openCount_cons, ho] at hopens
      simp at hopens
  | _ => exact hkeep rfl rfl rfl

/-- An accept engine makes a stream for the Open it reads. -/
theorem View.opened_input (hs : ViewStep order false i v inp v' w) (hn : v.task = none)
    (hn' : v'.task ≠ none) :
    ∃ target, inp = [.open i target] := by
  have hnone : ∀ t : Task, v.task ≠ some t := by
    intro t ht
    rw [hn] at ht
    cases ht
  cases hs with
  | opened c session target => exact ⟨target, rfl⟩
  | connected session target hs' => cases hs'
  | connectedPlain target hs' => cases hs'
  | pump t m orphan ht => exact absurd ht (hnone t)
  | delivered v' t payload ht => exact absurd ht (hnone t)
  | closed v' t ht => exact absurd ht (hnone t)
  | aborted v' t reason ht => exact absurd ht (hnone t)
  | credit t f bytes hf ht => exact absurd ht (hnone t)
  | unblocked t msg ht => exact absurd ht (hnone t)
  | joined t t' ht => exact absurd ht (hnone t)
  | _ => exact absurd hn hn'

end

/-- The Opens of a stream that the accept engine can still read. -/
def Lane.toCome (i : UInt32) (l : Lane) : ℕ := openCount i (l.ab ++ l.a.ctrl ++ l.a.out) + l.a.unopened

def Lane.forth (l : Lane) : List Frame := l.ab ++ l.a.ctrl ++ l.a.out

def Lane.back (l : Lane) : List Frame := l.ba ++ l.b.ctrl ++ l.b.out

/-- The bytes of a stream: each engine's half is fed what the other sent. Before the accept engine knows the
stream, the Open is in front of everything, and nothing comes back. -/
structure Lane.Carries (i : UInt32) (l : Lane) : Prop where
  apartA : l.a.Apart i
  apartB : l.b.Apart i
  born : l.a.task = none → items i l.forth = []
  calm : l.b.task = none → (l.a.task = none ∨ 0 < l.toCome i) → items i l.back = []
  lead : 0 < l.toCome i → led i l.forth
  next : l.b.task = none → 0 < l.toCome i → Script (l.a.source true) true [] (items i l.forth)
  ab : l.b.Feed (l.a.source true) (items i l.forth)
  ba : l.a.Feed (l.b.source (decide (0 < l.toCome i))) (items i l.back)

namespace Lane
variable {order : Bool} {i : UInt32} {l l' : Lane} {inp w : List Frame}

theorem Opens.toCome_le (h : l.Opens i) : l.toCome i + l.b.known ≤ l.a.known := by
  unfold Lane.Opens at h
  unfold toCome
  omega

theorem toCome_eq (i : UInt32) (l : Lane) : l.toCome i = openCount i l.forth + l.a.unopened := rfl

theorem some_stays {initiates : Bool} {v v' : View} (hs : ViewStep order initiates i v inp v' w)
    (hn : v'.task = none) : v.task = none := by
  cases ht : v.task with
  | none => rfl
  | some t =>
    obtain ⟨t', ht', -⟩ := task_step hs ht
    rw [hn] at ht'
    cases ht'

/-- While the initiate engine has the stream, no Open of it is added. -/
theorem toCome_stepA (hs : LaneStepA order i l l' inp w) (hne : l.a.task ≠ none) :
    l'.toCome i ≤ l.toCome i := by
  obtain ⟨t, ht⟩ := Option.ne_none_iff_exists'.mp hne
  obtain ⟨t', ht', -⟩ := task_step hs.step ht
  have ho := opens_initiate hs.step
  rw [View.known_some ht, View.known_some ht'] at ho
  unfold toCome
  rw [hs.ab]
  simp only [openCount_append] at ho ⊢
  omega

theorem toCome_stepB (hs : LaneStepB order i l l' inp w) : openCount i inp + l'.toCome i = l.toCome i := by
  unfold toCome
  rw [hs.ab, hs.a]
  simp only [openCount_append]
  omega

/-- A step of the initiate engine carries the bytes on. -/
theorem Carries.stepA (h : l.Carries i) (hs : LaneStepA true i l l' inp w) (ho : l.Opens i)
    (hi : i ≠ controlId)
    (hid : ∀ t, l.a.task = some t → t.id = i) : l'.Carries i := by
  have hle := ho.toCome_le
  obtain ⟨new, hforth, hsends, hquiet⟩ := View.sends hs.step hi hid h.apartA true true
    (fun _ _ => rfl) (fun _ _ _ => rfl) (fun hf => by cases hf) l.ab
  rw [← hs.ab] at hforth
  have hforth' : items i l'.forth = items i l.forth ++ new := hforth
  have hbackEq : items i l.back = items i inp ++ items i l'.back := by
    simp only [back, hs.ba, hs.b, items_append, List.append_assoc]
  -- before the stream is there, it sends nothing
  have hbefore : l.a.task = none → items i l'.forth = [] := by
    intro hn
    rw [hforth', h.born hn, List.nil_append]
    rcases hquiet hn with hq | ⟨hf, -⟩
    · exact hq
    · cases hf
  have hcome : 0 < l'.toCome i → l.a.task = none ∨ 0 < l.toCome i := by
    intro hc
    by_cases hn : l.a.task = none
    · exact .inl hn
    · exact .inr (Nat.lt_of_lt_of_le hc (toCome_stepA hs hn))
  have hcalm : l'.b.task = none → (l'.a.task = none ∨ 0 < l'.toCome i) → items i l'.back = [] := by
    intro hb hc
    rw [hs.b] at hb
    have hc' : l.a.task = none ∨ 0 < l.toCome i := by
      rcases hc with hc | hc
      · exact .inl (some_stays hs.step hc)
      · exact hcome hc
    have hall := h.calm hb hc'
    rw [hbackEq, List.append_eq_nil_iff] at hall
    exact hall.2
  refine
    { apartA := h.apartA.step hs.step fun hn _ => ?_
      apartB := by rw [hs.b]; exact h.apartB
      born := fun hn => hbefore (some_stays hs.step hn)
      calm := hcalm
      lead := fun hc => ?_
      next := fun hb hc => ?_
      ab := ?_
      ba := ?_ }
  · -- the control queue of a new stream
    have hall := h.born hn
    simp only [forth, items_append, List.append_eq_nil_iff] at hall
    exact hall.1.2
  · rcases hcome hc with hn | hc'
    · exact led_of_items (hbefore hn)
    · by_cases hn : l.a.task = none
      · exact led_of_items (hbefore hn)
      · obtain ⟨t, ht⟩ := Option.ne_none_iff_exists'.mp hn
        have hled := View.led_step hs.step hi ht (h.apartA.ctrl hn) l.ab (h.lead hc') hc'
        rw [toCome_eq, forth, hs.ab] at hc
        rw [forth, hs.ab]
        exact hled hc
  · rw [hs.b] at hb
    have hprev : Script (l.a.source true) true [] (items i l.forth) := by
      rcases hcome hc with hn | hc'
      · rw [h.born hn, View.source_none hn]
        exact Script.start true true
      · exact h.next hb hc'
    have hscript := hprev.sends hsends
    rw [hforth', if_pos rfl] at *
    exact hscript
  · rw [hs.b, hforth']
    exact h.ab.sends hsends
  · rw [hs.b]
    have hfed : l.a.Feed (l.b.source (decide (0 < l'.toCome i))) (items i inp ++ items i l'.back) := by
      by_cases hn : l.a.task = none
      · intro t ht
        rw [hn] at ht
        cases ht
      · have hsource : (l.b.source (decide (0 < l.toCome i))).Sends []
          (l.b.source (decide (0 < l'.toCome i))) :=
          View.source_mono l.b fun hc => decide_eq_true
            (Nat.lt_of_lt_of_le (of_decide_eq_true hc) (toCome_stepA hs hn))
        have hfeed := h.ba.sends hsource
        rw [List.append_nil, hbackEq] at hfeed
        exact hfeed
    refine View.receives hs.step hi hfed fun hn hn' => ⟨h.apartA.wait hn, ?_⟩
    -- a stream that begins finds nothing on its way back
    have hb : l.b.task = none := by
      have hk := View.known_none hn
      cases hb : l.b.task with
      | none => rfl
      | some t =>
        have hkb := View.known_some hb
        omega
    have hall := h.calm hb (.inl hn)
    rw [hbackEq, List.append_eq_nil_iff] at hall
    rw [hall.2, View.source_none hb]
    exact Script.start true _

/-- A step of the accept engine carries the bytes on. -/
theorem Carries.stepB (h : l.Carries i) (hs : LaneStepB true i l l' inp w) (ho : l.Opens i)
    (hi : i ≠ controlId)
    (hid : ∀ t, l.b.task = some t → t.id = i) : l'.Carries i := by
  have hle := ho.toCome_le
  have hknown := View.known_le l.a
  have hcome := toCome_stepB hs
  have hopen : ∀ target, inp = [.open i target] → openCount i inp = 1 := by
    rintro target rfl
    simp [Frame.opens]
  have hforthEq : l.forth = inp ++ l'.forth := by
    simp only [forth, hs.ab, hs.a, List.append_assoc]
  have hitems : items i l.forth = items i inp ++ items i l'.forth := by rw [hforthEq, items_append]
  obtain ⟨new, hback, hsends, hquiet⟩ := View.sends hs.step hi hid h.apartB (decide (0 < l.toCome i))
    (decide (0 < l'.toCome i))
    (fun hn hn' => by
      obtain ⟨target, hinp⟩ := View.opened_input hs.step hn hn'
      have hone := hopen target hinp
      exact decide_eq_true (by omega))
    (fun _ _ hc => decide_eq_true (by have hc' := of_decide_eq_true hc; omega))
    (fun _ _ target hinp => decide_eq_false (by have hone := hopen target hinp; omega)) l.ba
  rw [← hs.ba] at hback
  have hback' : items i l'.back = items i l.back ++ new := hback
  -- while the Open is to come, what is read is no message of the stream
  have hread : 0 < l'.toCome i → openCount i inp = 0 ∧ items i inp = [] := by
    intro hc
    have hzero : openCount i inp = 0 := by omega
    have hled := h.lead (by omega)
    rw [hforthEq, led_append] at hled
    exact ⟨hzero, items_of_led hled.1 hzero⟩
  refine
    { apartA := by rw [hs.a]; exact h.apartA
      apartB := h.apartB.step hs.step fun hn hn' => ?_
      born := fun hn => ?_
      calm := fun hn hc => ?_
      lead := fun hc => ?_
      next := fun hn hc => ?_
      ab := ?_
      ba := ?_ }
  · obtain ⟨target, hinp⟩ := View.opened_input hs.step hn hn'
    have hone := hopen target hinp
    have hall := h.calm hn (.inr (by omega))
    simp only [back, items_append, List.append_eq_nil_iff] at hall
    exact hall.1.2
  · rw [hs.a] at hn
    have hall := h.born hn
    rw [hitems, List.append_eq_nil_iff] at hall
    exact hall.2
  · have hn₀ := some_stays hs.step hn
    have hc₀ : l.a.task = none ∨ 0 < l.toCome i := by
      rw [hs.a] at hc
      rcases hc with hc | hc
      · exact .inl hc
      · exact .inr (by omega)
    rw [hback', h.calm hn₀ hc₀, List.nil_append]
    rcases hquiet hn₀ with hq | ⟨-, -, target, hinp⟩
    · exact hq
    · -- a refusal takes the only Open
      have hone := hopen target hinp
      rw [hs.a] at hc
      rcases hc with hc | hc
      · have hk := View.known_none hc
        omega
      · omega
  · have hled := h.lead (by omega)
    rw [hforthEq, led_append] at hled
    exact hled.2 (hread hc).1
  · have hscript := h.next (some_stays hs.step hn) (by omega)
    rw [hitems, (hread hc).2, List.nil_append] at hscript
    rw [hs.a]
    exact hscript
  · have hfeed := h.ab
    rw [hitems] at hfeed
    rw [hs.a]
    refine View.receives hs.step hi hfeed fun hn hn' => ⟨h.apartB.wait hn, ?_⟩
    obtain ⟨target, hinp⟩ := View.opened_input hs.step hn hn'
    have hone := hopen target hinp
    have hscript := h.next hn (by omega)
    rw [hitems, hinp] at hscript
    exact hscript
  · rw [hs.a, hback']
    exact h.ba.sends hsends

end Lane

end CtAgent.Forward
