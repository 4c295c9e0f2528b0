import CtAgent.Forward.PairCredited
import CtAgent.Forward.Sessions

/-! Two engines of this repository never trip each other's checks as long as no Close goes between the
FC_ON and the Open of its stream: the invariant that ties their counters together, kept by every such
step of either engine. -/
namespace CtAgent.Forward
open CtAgent.Lib

/-- The ends of a session that say the peer broke the protocol. -/
def EndReason.violation : EndReason → Bool
  | .windowBelowMinimum => true
  | .acknowledgedMore => true
  | .controlFlood => true
  | .openInUse _ => true
  | _ => false

namespace Engine
variable {cfg : EngineConfig} {grant : ℕ} {s s' : Engine} {e : EngineEvent} {w : List Frame}

/-- What an engine reads when it ends its session for a violation. -/
theorem violation_step (hs : Shape cfg s e s' w) (hend : s.ended = none) {why : EndReason}
    (hw : s'.ended = some why) (hv : why.violation = true) :
    (∃ payload window, e = .frame (.data controlId payload) ∧ parseControl payload = some (.hello window) ∧
      SessionSend.fromHello (κ := ℕ) (window.getD 0) = .error ()) ∨
    (∃ payload bytes win, e = .frame (.data controlId payload) ∧
      parseControl payload = some (.swindow bytes) ∧ s.session = some win ∧
      win.send.unacknowledged < bytes.toNat) ∨
    (∃ payload id, e = .frame (.data controlId payload) ∧ parseControl payload = some (.fcOn id) ∧
      maxPendingFc ≤ s.pendingFc.card) ∨
    (∃ id target, e = .frame (.open id target) ∧ cfg.initiates = false ∧
      (id = controlId ∨ id ∈ s.entries ∨ id ∈ s.running)) := by
  have hsame : s'.ended ≠ s.ended := by
    rw [hw, hend]
    simp
  have hack : ∀ ack, (s.sendAck ack).ended = some why → False := by
    intro ack ha
    unfold sendAck at ha
    split at ha
    · rename_i f _
      rcases ctrlSend_cases f (show ({ s with recv := ack.2 } : Engine).ended = none from hend) with hc | hc
      · rw [hc] at ha
        cases ha
        cases hv
      · rw [hc] at ha
        exact absurd (ha.symm.trans hend) (by simp)
    · exact absurd (ha.symm.trans hend) (by simp)
  cases hs with
  | touched e s' he ht => exact absurd (by rw [ht.eq]) hsame
  | gone e why' he hg =>
    cases hw
    rcases hg with rfl | rfl | rfl <;> cases hv
  | flush => exact (hack _ hw).elim
  | ignored f s' hf ht => exact absurd (by rw [ht.eq]) hsame
  | hello payload window s' hfc hp hh =>
    cases hh with
    | late => exact absurd rfl hsame
    | granted => exact absurd rfl hsame
    | below on hl hf => exact .inl ⟨payload, window, rfl, hp, hf⟩
  | swindow payload bytes hfc hp =>
    rcases onSWindow_cases bytes.toNat s with ⟨-, hq⟩ | ⟨win, -, -, hq⟩ | ⟨win, hwin, hlt, hq⟩
    · rw [hq] at hsame
      exact absurd rfl hsame
    · rw [hq] at hsame
      exact absurd rfl hsame
    · exact .inr (.inl ⟨payload, bytes, win, rfl, hp, hwin, hlt⟩)
  | flood payload id hfc hp hc => exact .inr (.inr (.inl ⟨payload, id, rfl, hp, hc⟩))
  | data id payload s' hid ht => exact (hack _ (by rw [← hw, ht.eq])).elim
  | close id reason s' ht => exact absurd (by rw [ht.eq]) hsame
  | «open» id target s' hi hn ho =>
    cases ho with
    | inUse hu => exact .inr (.inr (.inr ⟨id, target, rfl, hi, hu⟩))
    | refused reason =>
      rcases ctrlSend_cases (.close id (some reason)) (show (s.taken id).ended = none from hend) with hc | hc
      · rw [hc] at hw
        cases hw
        cases hv
      · rw [hc] at hsame
        exact absurd rfl hsame
    | accepted => exact absurd rfl hsame
  | connection target s' hside hn hc =>
    cases hc with
    | backlog =>
      cases hw
      cases hv
    | _ => exact absurd rfl hsame
  | sendOpen target s' hside hc =>
    cases hc with
    | backlog =>
      cases hw
      cases hv
    | sent => exact absurd rfl hsame
  | pump tid pe s' hq =>
    obtain ⟨t, m, session, -, -, -, -, rfl⟩ := onPump_eq hq
    exact absurd rfl hsame
  | _ => exact absurd rfl hsame

/-- Only the initiate engine takes local connections and opens their streams. -/
theorem initiates_of_connection (hq : s.step cfg e = some (s', w)) (he : e = .connection ∨ e = .sendOpen) :
    cfg.initiates = true := by
  obtain ⟨-, hc⟩ := step_cases hq
  rcases hc with ⟨rfl, -⟩ | ⟨f, ctrl, rfl, -⟩ | ⟨rfl, -⟩ | ⟨f, out, rfl, -⟩ | ⟨rfl, -⟩ | ⟨rfl, -⟩ |
    ⟨tid, pe, rfl, -⟩ | ⟨-, -, ht, -⟩
  all_goals first | simp at he | skip
  rcases he with rfl | rfl
  · simp only [turn] at ht
    split at ht
    · rename_i target hside
      rw [EngineConfig.initiates, hside]
    · cases ht
  · simp only [turn] at ht
    split at ht
    · rename_i target hside
      rw [EngineConfig.initiates, hside]
    · cases ht

theorem opening_of_connection (hq : s.step cfg .connection = some (s', w)) : s.opening = none := by
  obtain ⟨-, hc⟩ := step_cases hq
  rcases hc with ⟨he, -⟩ | ⟨f, ctrl, he, -⟩ | ⟨he, -⟩ | ⟨f, out, he, -⟩ | ⟨he, -⟩ | ⟨he, -⟩ |
    ⟨tid, pe, he, -⟩ | ⟨-, ho, -⟩
  all_goals first | cases he | skip
  exact ho.resolve_right (by simp)

theorem about_windowFor {f : Frame} {i bytes : UInt32} (h : f.windowFor i = some bytes) :
    f.about i = true := by
  cases f with
  | data id payload =>
    simp only [Frame.windowFor] at h
    split at h
    · rename_i hid
      split at h
      · rename_i k b hp
        split at h
        · rename_i hk
          simp [Frame.about, hid, hp, hk]
        · cases h
      · cases h
    · cases h
  | _ => cases h

/-- An engine resets nothing when the data and the credit it reads fit. -/
theorem no_reset (htab : s.Tables cfg) (hn : (s.tasks.map Task.id).Nodup) (hq : s.step cfg e = some (s', w))
    {wire rest : List Frame} (hw : wire = e.input ++ rest)
    (hdata : ∀ i t payload, i ≠ controlId → (s.view i).task = some t → t.credited = true →
      wire.filter (Frame.about i) = .data i payload :: rest.filter (Frame.about i) →
      t.pending + payload.length ≤ fcWindow)
    (hcredit : ∀ i t f bytes, (s.view i).task = some t → t.credited = true → f.windowFor i = some bytes →
      wire.filter (Frame.about i) = f :: rest.filter (Frame.about i) →
      t.credit.free + bytes.toNat ≤ fcWindow) : s'.resets = s.resets := by
  have hfilter : ∀ f i, e = .frame f → f.about i = true →
      wire.filter (Frame.about i) = f :: rest.filter (Frame.about i) := by
    rintro f i rfl hf
    rw [hw]
    exact List.filter_cons_of_pos hf
  rcases resets_cases htab hn hq with hr | ⟨i, payload, t, he, hi, ht, hc, hx⟩
    | ⟨i, f, bytes, t, he, hf, ht, hc, hx⟩
  · exact hr
  · have hle := hdata i t payload hi ht hc (hfilter _ i he (by simp [Frame.about, hi]))
    omega
  · have hle := hcredit i t f bytes ht hc hf (hfilter f i he (about_windowFor hf))
    omega

theorem view_counted (h : s.Tables cfg) (i : UInt32) : (s.view i).Counted := by
  intro t ht
  obtain ⟨tid, hg⟩ := List.mem_iff_getElem?.mp (List.mem_of_find?_eq_some ht)
  exact h.counted tid t hg

theorem Tables.not_running (h : s.Tables cfg) {id : UInt32} (hn : s.stream id = none) : id ∉ s.running := by
  intro hm
  obtain ⟨tid, hr⟩ := Option.isSome_iff_exists.mp (AList.lookup_isSome.mpr hm)
  obtain ⟨t, ht, hid, -⟩ := h.runs id tid hr
  exact List.find?_eq_none.mp hn t (List.mem_of_getElem? ht) (by simp [hid])

theorem Tables.entry_mem (h : s.Tables cfg) {id : UInt32} (hm : id ∈ s.entries) : id ∈ s.running := by
  obtain ⟨tid, he⟩ := Option.isSome_iff_exists.mp (AList.lookup_isSome.mpr hm)
  exact AList.lookup_isSome.mp (Option.isSome_iff_exists.mpr ⟨tid, h.entry_runs id tid he⟩)

theorem view_id {i : UInt32} {t : Task} (h : (s.view i).task = some t) : t.id = i := by
  simpa using List.find?_some h

/-- An engine ends no session for a violation when its peer is one of this repository. -/
theorem not_violation {peer : EngineConfig} (hs : Shape cfg s e s' w) (hend : s.ended = none)
    (hfrom : ∀ f ∈ e.input, f.From peer) (hvalid : ValidWindow peer.window)
    (hack : ∀ win, s.session = some win → tally Frame.acks e.input ≤ win.send.unacknowledged)
    (hfc : peer.initiates = false ∨ s.pendingFc.card < maxPendingFc)
    (hopen : cfg.initiates = false → ∀ id target, e = .frame (.open id target) →
      id ≠ controlId ∧ s.stream id = none) (htab : s.Tables cfg) :
    ∀ why, s'.ended = some why → why.violation = false := by
  intro why hw
  by_contra hv
  rw [Bool.not_eq_false] at hv
  rcases violation_step hs hend hw hv with ⟨payload, window, rfl, hp, hf⟩ |
    ⟨payload, bytes, win, rfl, hp, hwin, hlt⟩ | ⟨payload, id, rfl, hp, hc⟩ | ⟨id, target, rfl, hi, hu⟩
  · obtain ⟨-, rfl⟩ := hello_window (hfrom _ (List.mem_singleton_self _)) hp
    exact valid_hello hvalid hf
  · have hle := hack win hwin
    have hbytes : tally Frame.acks (EngineEvent.frame (.data controlId payload)).input = bytes.toNat := by
      simp [EngineEvent.input, Frame.acks, hp]
    omega
  · rcases hfc with hpeer | hcard
    · have hf := hfrom (.data controlId payload) (List.mem_singleton_self _) rfl
      rw [hp] at hf
      rw [hpeer] at hf
      cases hf
    · omega
  · obtain ⟨hid, hnone⟩ := hopen hi id target rfl
    rcases hu with hu | hu | hu
    · exact hid hu
    · exact htab.not_running hnone (htab.entry_mem hu)
    · exact htab.not_running hnone hu

theorem creditOf_of_marks (h : s'.tasks.map mark = s.tasks.map mark) (i : UInt32) :
    s'.creditOf i = s.creditOf i := by
  rw [creditOf_eq, creditOf_eq, h]

theorem creditOf_append {t : Task} {i : UInt32} {c : Bool} (hs : s'.tasks = s.tasks ++ [t])
    (hc : s'.creditOf i = some c) : s.creditOf i = some c ∨ (t.id = i ∧ t.credited = c) := by
  rw [creditOf, stream, hs, List.find?_append] at hc
  cases hf : s.tasks.find? (fun t => t.id = i) with
  | some u =>
    rw [hf] at hc
    left
    rw [creditOf, stream, hf]
    exact hc
  | none =>
    rw [hf, Option.none_or, Option.map_eq_some_iff] at hc
    obtain ⟨u, hu, huc⟩ := hc
    have hut : u = t := List.mem_singleton.mp (List.mem_of_find?_eq_some hu)
    subst hut
    exact .inr ⟨by simpa using List.find?_some hu, huc⟩

theorem matched_grows (hg : Grows cfg s e s') (hi : cfg.initiates = false) {i : UInt32} {c : Bool}
    (hc : s'.creditOf i = some c) :
    s.creditOf i = some c ∨ ∃ target, e = .frame (.open i target) ∧ c = decide (i ∈ s.pendingFc) := by
  cases hg with
  | same hm => exact .inl (creditOf_of_marks hm i ▸ hc)
  | announced id hi' =>
    rw [hi] at hi'
    cases hi'
  | connected t hi' =>
    rw [hi] at hi'
    cases hi'
  | opened t target hi' he hfree htc hs =>
    rcases creditOf_append hs hc with h | ⟨rfl, rfl⟩
    · exact .inl h
    · exact .inr ⟨target, he, htc⟩

theorem ids_grows (hg : Grows cfg s e s') (hi : cfg.initiates = false) (hn : (s.tasks.map Task.id).Nodup)
    (hopen : ∀ id target, e = .frame (.open id target) → s.stream id = none) :
    (s'.tasks.map Task.id).Nodup := by
  cases hg with
  | same hm =>
    have hids := congrArg (List.map Prod.fst) hm
    rw [List.map_map, List.map_map] at hids
    exact (show s'.tasks.map Task.id = s.tasks.map Task.id from hids) ▸ hn
  | announced id hi' =>
    rw [hi] at hi'
    cases hi'
  | connected t hi' =>
    rw [hi] at hi'
    cases hi'
  | opened t target hi' he hfree htc hs =>
    rw [hs, List.map_append, List.map_singleton, List.nodup_append]
    refine ⟨hn, List.nodup_singleton _, fun id hid k hk heq => ?_⟩
    rw [List.mem_singleton] at hk
    obtain ⟨u, hu, rfl⟩ := List.mem_map.mp hid
    exact List.find?_eq_none.mp (hopen _ _ he) u hu (by simpa [hk] using heq)

end Engine

/-- What holds in every state of two engines of this repository, as long as the ids last and no Close
goes between the FC_ON and the Open of its stream. -/
structure Pair.Inv (cfg : PairConfig) (s : Pair) : Prop extends Pair.Base cfg s where
  -- the streams and their ids
  numbered : s.a.Numbered
  idsB : (s.b.tasks.map Task.id).Nodup
  opens : ∀ i, (s.lane i).Opens i
  -- which streams run with credit
  plain : ∀ i, (s.a.view i).Plain i
  silent : ∀ i, (s.a.view i).Silent
  outA : ∀ f ∈ s.a.out, f.fcOnFor = none
  announced : Announced s.a s.b s.ab
  matched : ∀ i t, s.b.stream i = some t → s.a.creditOf i = some t.credited
  speaks : s.a.peerSpeaksFc = true → cfg.b.fcEnabled = true
  creditA : ∀ i ≠ controlId, CreditFits i (s.lane i).a (s.lane i).b (s.lane i).ab (s.lane i).ba
  creditB : ∀ i ≠ controlId, CreditFits i (s.lane i).b (s.lane i).a (s.lane i).ba (s.lane i).ab
  -- no violation so far
  resetsA : s.a.resets = []
  resetsB : s.b.resets = []
  endedA : ∀ why, s.a.ended = some why → why.violation = false
  endedB : ∀ why, s.b.ended = some why → why.violation = false

namespace Pair
variable {cfg : PairConfig} {s s' : Pair} {e : EngineEvent} {w : List Frame} {order : Bool}

theorem view_init (cfg : EngineConfig) (i : UInt32) :
    (Engine.init cfg).view i = ⟨none, false, [], [], []⟩ := by
  have hc : (Engine.init cfg).ctrl.filter (Frame.about i) = [] := by
    simp only [Engine.init]
    split
    · simp [Engine.about_hello]
    · rfl
  simp only [Engine.view, hc]
  rfl

theorem lane_init (cfg : PairConfig) (i : UInt32) :
    (init cfg).lane i = ⟨⟨none, false, [], [], []⟩, ⟨none, false, [], [], []⟩, [], []⟩ := by
  simp only [lane, init, view_init, List.filter_nil]

theorem inv_init (cfg : PairConfig) : (init cfg).Inv cfg where
  toBase := base_init cfg
  numbered := Engine.numbered_init _
  idsB := List.nodup_nil
  opens i := by
    rw [lane_init]
    exact Nat.le_refl 0
  plain i := by
    simp only [init, view_init]
    exact ⟨fun t ht => (by cases ht), fun target ht => absurd ht List.not_mem_nil⟩
  silent i := by
    simp only [init, view_init]
    exact fun _ => rfl
  outA f hf := by cases hf
  announced := announced_init _ _
  matched i t ht := by cases ht
  speaks h := by cases h
  creditA i _ := by
    rw [lane_init]
    exact fun _ => Nat.le_refl fcWindow
  creditB i _ := by
    rw [lane_init]
    exact fun _ => Nat.le_refl fcWindow
  resetsA := rfl
  resetsB := rfl
  endedA why h := by cases h
  endedB why h := by cases h

/-- The two tasks of a stream agree on the credit. -/
theorem Inv.agree (h : s.Inv cfg) {i : UInt32} {t u : Task} (ha : (s.a.view i).task = some t)
    (hb : (s.b.view i).task = some u) : t.credited = u.credited := by
  have hm := h.matched i u hb
  rw [Engine.creditOf, show s.a.stream i = some t from ha, Option.map_some, Option.some.injEq] at hm
  exact hm

/-- No stream has the id of the control messages. -/
theorem Inv.idA (h : s.Inv cfg) {i : UInt32} {t : Task} (ht : (s.a.view i).task = some t) : i ≠ controlId := by
  have hid := Engine.view_id ht
  obtain ⟨k, hk⟩ := List.mem_iff_getElem?.mp (List.mem_of_find?_eq_some ht)
  have hnum := h.numbered.ids k (Engine.mark t) (by rw [List.getElem?_map, hk]; rfl)
  rintro rfl
  change t.id.toNat = k + 1 at hnum
  rw [hid] at hnum
  cases hnum

theorem Inv.idB (h : s.Inv cfg) {i : UInt32} {t : Task} (ht : (s.b.view i).task = some t) : i ≠ controlId := by
  have hm := h.matched i t ht
  cases ha : s.a.stream i with
  | none =>
    rw [Engine.creditOf, ha] at hm
    cases hm
  | some u => exact h.idA (show (s.a.view i).task = some u from ha)

theorem Inv.noResetA (h : s.Inv cfg) {a' : Engine} {ba' : List Frame} (hq : s.a.step cfg.a e = some (a', w))
    (hba : s.ba = e.input ++ ba') : a'.resets = s.a.resets := by
  refine Engine.no_reset h.ab.tables h.numbered.nodup hq hba ?_ ?_
  · intro i t payload hi ht hc hwire
    refine (h.creditB i hi).pending_le (fun u hu => ?_) hi ht hc hwire
    rw [← h.agree ht hu, hc]
  · intro i t f bytes ht hc hf hwire
    refine (h.creditA i (h.idA ht)).free_le (fun u hu => ?_) ht hf hwire
    rw [show (s.a.view i).task = some u from hu, Option.some.injEq] at ht
    rw [ht, hc]

theorem Inv.noResetB (h : s.Inv cfg) {b' : Engine} {ab' : List Frame} (hq : s.b.step cfg.b e = some (b', w))
    (hab : s.ab = e.input ++ ab') : b'.resets = s.b.resets := by
  refine Engine.no_reset h.ba.tables h.idsB hq hab ?_ ?_
  · intro i t payload hi ht hc hwire
    refine (h.creditA i hi).pending_le (fun u hu => ?_) hi ht hc hwire
    rw [h.agree hu ht, hc]
  · intro i t f bytes ht hc hf hwire
    refine (h.creditB i (h.idB ht)).free_le (fun u hu => ?_) ht hf hwire
    rw [show (s.b.view i).task = some u from hu, Option.some.injEq] at ht
    rw [ht, hc]

/-- A step of the initiate engine, as every part of the state sees it. -/
structure MovedA (order : Bool) (cfg : PairConfig) (s s' : Pair) (e : EngineEvent)
    (w : List Frame) : Prop where
  step : s.a.step cfg.a e = some (s'.a, w)
  ended : s.a.ended = none
  ba : s.ba = e.input ++ s'.ba
  ab : s'.ab = s.ab ++ w
  b : s'.b = s.b
  shape : Engine.Shape cfg.a s.a e s'.a w
  lane : ∀ i, LaneStepA order i (s.lane i) (s'.lane i) (e.input.filter (Frame.about i))
    (w.filter (Frame.about i))

structure MovedB (order : Bool) (cfg : PairConfig) (s s' : Pair) (e : EngineEvent)
    (w : List Frame) : Prop where
  step : s.b.step cfg.b e = some (s'.b, w)
  ended : s.b.ended = none
  ab : s.ab = e.input ++ s'.ab
  ba : s'.ba = s.ba ++ w
  a : s'.a = s.a
  shape : Engine.Shape cfg.b s.b e s'.b w
  lane : ∀ i, LaneStepB order i (s.lane i) (s'.lane i) (e.input.filter (Frame.about i))
    (w.filter (Frame.about i))

theorem overtakes_inOrder {s : Engine} (h : s.inOrder e = true) :
    ∀ f out, e = .pollOut → s.out = f :: out → f.overtakes s.ctrl = false := by
  rintro f out rfl ho
  simp only [Engine.inOrder, ho, Bool.not_eq_true'] at h
  exact h

theorem Inv.movedA (h : s.Inv cfg) (hs : s.step cfg (.a e) = some s')
    (horder : order = true → s.inOrder (.a e) = true) : ∃ w, MovedA order cfg s s' e w := by
  obtain ⟨w, hq, hba, hab, hb⟩ := step_a hs
  obtain ⟨hend, -⟩ := Engine.step_cases hq
  have hr := h.noResetA hq hba
  refine ⟨w, hq, hend, hba, hab, hb, Engine.shape_step h.ab.tables hq hr, fun i => ?_⟩
  refine ⟨?_, ?_, ?_, ?_⟩
  · refine Engine.view_step h.ab.tables h.numbered.nodup hq hr (fun hi => by cases hi) (fun id hcon hid => ?_)
      (fun id _ ho => h.numbered.unopened hend ho) (fun ho => overtakes_inOrder (horder ho)) i
    have ho := Engine.opening_of_connection (hcon ▸ hq)
    exact (h.numbered.fresh h.ab.tables hend ho hid).2
  · simp only [lane, hba, List.filter_append]
  · simp only [lane, hab, List.filter_append]
  · simp only [lane, hb]

/-- The accept engine has no stream under an id whose Open it still has to read. -/
theorem Inv.unopened (h : s.Inv cfg) {id : UInt32} {target : String} {rest : List Frame}
    (hab : s.ab = .open id target :: rest) : (s.b.view id).task = none := by
  have ho := h.opens id
  have hone : 1 ≤ openCount id (s.lane id).ab := by
    have hf : (s.lane id).ab = .open id target :: rest.filter (Frame.about id) := by
      simp only [lane, hab]
      exact List.filter_cons_of_pos (by simp [Frame.about])
    rw [hf, openCount_cons]
    simp [Frame.opens]
  have hknown : (s.lane id).a.known ≤ 1 := by
    unfold View.known
    split <;> omega
  unfold Lane.Opens at ho
  simp only [openCount_append] at ho
  have hb : (s.b.view id).known = 0 := by
    change (s.lane id).b.known = 0
    omega
  cases ht : (s.b.view id).task with
  | none => rfl
  | some t =>
    rw [View.known_some ht] at hb
    cases hb

theorem Inv.movedB (h : s.Inv cfg) (hs : s.step cfg (.b e) = some s')
    (horder : order = true → s.inOrder (.b e) = true) : ∃ w, MovedB order cfg s s' e w := by
  obtain ⟨w, hq, hab, hba, ha⟩ := step_b hs
  obtain ⟨hend, hc⟩ := Engine.step_cases hq
  have hr := h.noResetB hq hab
  have hshape := Engine.shape_step h.ba.tables hq hr
  refine ⟨w, hq, hend, hab, hba, ha, hshape, fun i => ?_⟩
  refine ⟨?_, ?_, ?_, ?_⟩
  · refine Engine.view_step h.ba.tables h.idsB hq hr (fun _ id target he => ?_) (fun id he _ => ?_)
      (fun id he _ => ?_) (fun ho => overtakes_inOrder (horder ho)) i
    · subst he
      exact h.unopened hab
    · cases Engine.initiates_of_connection hq (.inl he)
    · cases Engine.initiates_of_connection hq (.inr he)
  · simp only [lane, hab, List.filter_append]
  · simp only [lane, hba, List.filter_append]
  · simp only [lane, ha]

namespace MovedA

theorem from_input (h : s.Inv cfg) (hm : MovedA order cfg s s' e w) : ∀ f ∈ e.input, f.From cfg.b := by
  intro f hf
  apply h.ba.sent f
  rw [hm.ba]
  exact List.mem_append_right _ (List.mem_append_left _ hf)

theorem queue (hm : MovedA order cfg s s' e w) : Engine.QueueStep cfg.a s.a s'.a w :=
  Engine.queue_step hm.ended hm.shape

theorem grows (hm : MovedA order cfg s s' e w) : Engine.Grows cfg.a s.a e s'.a := Engine.grows_step hm.shape

theorem creditOf (hm : MovedA order cfg s s' e w) (i : UInt32) (c : Bool) (hc : s.a.creditOf i = some c) :
    s'.a.creditOf i = some c := by
  obtain ⟨ms, hms⟩ := hm.grows.marks
  exact Engine.creditOf_mono hms i c hc

theorem cutsIn_of_uncut (hm : MovedA order cfg s s' e w) (hcut : s.a.uncut e = true) {f : Frame}
    {out : List Frame} (ho : s.a.out = f :: out) (hw : w = [f]) (hc' : s'.a.ctrl = s.a.ctrl) :
    f.cutsIn s.a.ctrl = false := by
  have hpoll : e = .pollOut := by
    obtain ⟨-, hc⟩ := Engine.step_cases hm.step
    rcases hc with ⟨-, -, -, hn⟩ | ⟨g, ctrl, -, hctrl, hs, -⟩ | ⟨he, -⟩ | ⟨g, out', he, -⟩ | ⟨-, -, hn⟩ |
      ⟨-, -, hn⟩ | ⟨tid, pe, -, -, hn⟩ | ⟨-, -, -, hn⟩
    all_goals first | exact he | (rw [hw] at hn; cases hn) | skip
    -- a poll of the control queue shortens it
    rw [hs, hctrl] at hc'
    exact absurd (congrArg List.length hc') (by simp)
  rw [hpoll, Engine.uncut, ho, Bool.not_eq_true'] at hcut
  exact hcut

end MovedA

/-- A step of the initiate engine keeps the invariant, as long as the ids last. -/
theorem Inv.stepA (h : s.Inv cfg) (hm : MovedA order cfg s s' e w) (hbase : s'.Base cfg)
    (hcut : s.a.uncut e = true) (hlen : s'.a.tasks.length < 2 ^ 32 - 1) : s'.Inv cfg := by
  have hfrom := hm.from_input h
  have hqueue := hm.queue
  have hfree : ∀ id, s.a.opening = some id → s.a.stream id = none :=
    fun id ho => h.numbered.unopened hm.ended ho
  refine
    { toBase := hbase
      numbered := h.numbered.step h.ab.tables hm.ended hm.grows rfl hlen
      idsB := by rw [hm.b]; exact h.idsB
      opens := fun i => (h.opens i).stepA (hm.lane i)
      plain := fun i => (h.plain i).step (hm.lane i).step
      silent := fun i => (h.silent i).step (hm.lane i).step
      outA := Engine.fcOnFor_out h.ab.tables hqueue h.outA
      announced := ?announced
      matched := ?matched
      speaks := ?speaks
      creditA := ?creditA
      creditB := ?creditB
      resetsA := by rw [h.noResetA hm.step hm.ba, h.resetsA]
      resetsB := by rw [hm.b]; exact h.resetsB
      endedA := ?endedA
      endedB := by rw [hm.b]; exact h.endedB }
  case announced =>
    rw [hm.ab, hm.b]
    refine h.announced.sends hm.ended hqueue hm.creditOf (Engine.speaks_step hm.shape) h.outA h.plain h.silent
      hfree fun f out ho ho' hc' => ?_
    exact hm.cutsIn_of_uncut hcut ho ho' hc'
  case matched =>
    intro i t ht
    rw [hm.b] at ht
    exact hm.creditOf i _ (h.matched i t ht)
  case speaks =>
    rcases Engine.heard_from hm.shape hfrom with hb | ⟨hs, -⟩
    · exact fun _ => hb
    · rw [hs]
      exact h.speaks
  case creditA =>
    intro i hi
    have hl := hm.lane i
    rw [hl.b, hl.ab]
    exact (h.creditA i hi).sends hl.step (Engine.view_counted h.ab.tables i) hl.ba
  case creditB =>
    intro i hi
    have hl := hm.lane i
    rw [hl.b, hl.ab]
    exact (h.creditB i hi).receives hl.step (Engine.view_counted h.ab.tables i) hi
      (fun t ht => Engine.view_id ht) hl.ba
  case endedA =>
    refine Engine.not_violation hm.shape hm.ended hfrom cfg.valid.2 (h.ab.acked.input_le hm.ba) (.inl rfl)
      (fun hi => ?_) h.ab.tables
    cases hi

namespace MovedB

theorem from_input (h : s.Inv cfg) (hm : MovedB order cfg s s' e w) : ∀ f ∈ e.input, f.From cfg.a := by
  intro f hf
  apply h.ab.sent f
  rw [hm.ab]
  exact List.mem_append_right _ (List.mem_append_left _ hf)

theorem queue (hm : MovedB order cfg s s' e w) : Engine.QueueStep cfg.b s.b s'.b w :=
  Engine.queue_step hm.ended hm.shape

theorem grows (hm : MovedB order cfg s s' e w) : Engine.Grows cfg.b s.b e s'.b := Engine.grows_step hm.shape

/-- The engine reads an Open of a stream of its peer, and has none under its id. -/
theorem «open» (h : s.Inv cfg) (hm : MovedB order cfg s s' e w) {id : UInt32} {target : String}
    (he : e = .frame (.open id target)) :
    s.a.creditOf id = some (decide (id ∈ s.b.pendingFc)) ∧ s.b.stream id = none := by
  have hab := hm.ab
  subst he
  have hann := h.announced
  rw [show s.ab = .open id target :: s'.ab from hab] at hann
  exact ⟨hann.credit hm.ended, h.unopened hab⟩

end MovedB

theorem Inv.ne_control (h : s.Inv cfg) {id : UInt32} {c : Bool} (hc : s.a.creditOf id = some c) :
    id ≠ controlId := by
  rw [Engine.creditOf, Option.map_eq_some_iff] at hc
  obtain ⟨t, ht, -⟩ := hc
  exact h.idA (show (s.a.view id).task = some t from ht)

/-- A step of the accept engine keeps the invariant. -/
theorem Inv.stepB (h : s.Inv cfg) (hm : MovedB order cfg s s' e w) (hbase : s'.Base cfg) : s'.Inv cfg := by
  have hfrom := hm.from_input h
  refine
    { toBase := hbase
      numbered := by rw [hm.a]; exact h.numbered
      idsB := Engine.ids_grows hm.grows rfl h.idsB (fun id target he => (hm.open h he).2)
      opens := fun i => (h.opens i).stepB (hm.lane i)
      plain := by rw [hm.a]; exact h.plain
      silent := by rw [hm.a]; exact h.silent
      outA := by rw [hm.a]; exact h.outA
      announced := ?announced
      matched := ?matched
      speaks := by rw [hm.a]; exact h.speaks
      creditA := ?creditA
      creditB := ?creditB
      resetsA := by rw [hm.a]; exact h.resetsA
      resetsB := by rw [h.noResetB hm.step hm.ab, h.resetsB]
      endedA := by rw [hm.a]; exact h.endedA
      endedB := ?endedB }
  case announced =>
    rw [hm.a]
    exact h.announced.receives hm.ended rfl hm.shape hm.ab h.speaks
  case matched =>
    intro i t ht
    rw [hm.a]
    have hc : s'.b.creditOf i = some t.credited := by rw [Engine.creditOf, ht, Option.map_some]
    rcases Engine.matched_grows hm.grows rfl hc with hc | ⟨target, he, hd⟩
    · rw [Engine.creditOf, Option.map_eq_some_iff] at hc
      obtain ⟨u, hu, huc⟩ := hc
      rw [← huc]
      exact h.matched i u hu
    · rw [hd]
      exact (hm.open h he).1
  case creditA =>
    intro i hi
    have hl := hm.lane i
    rw [hl.a, hl.ba]
    exact (h.creditA i hi).receives hl.step (Engine.view_counted h.ba.tables i) hi
      (fun t ht => Engine.view_id ht) hl.ab
  case creditB =>
    intro i hi
    have hl := hm.lane i
    rw [hl.a, hl.ba]
    exact (h.creditB i hi).sends hl.step (Engine.view_counted h.ba.tables i) hl.ab
  case endedB =>
    refine Engine.not_violation hm.shape hm.ended hfrom cfg.valid.1 (h.ba.acked.input_le hm.ab)
      (.inr (h.announced.card hm.ended)) (fun _ id target he => ?_) h.ba.tables
    obtain ⟨hc, hn⟩ := hm.open h he
    exact ⟨h.ne_control hc, hn⟩

/-- A step of either engine that cuts no announcement off keeps the invariant. -/
theorem Inv.step {e : PairEvent} (h : s.Inv cfg) (hs : s.step cfg e = some s') (hcut : s.uncut e = true)
    (hlen : s'.a.tasks.length < 2 ^ 32 - 1) : s'.Inv cfg := by
  have hbase := h.toBase.step hs
  have hfree : ∀ p : Bool, false = true → p = true := fun p hf => by cases hf
  cases e with
  | a e =>
    obtain ⟨w, hm⟩ := h.movedA hs (hfree _)
    exact h.stepA hm hbase hcut hlen
  | b e =>
    obtain ⟨w, hm⟩ := h.movedB hs (hfree _)
    exact h.stepB hm hbase

/-- What a step keeps beside the invariant holds in every state of a run that cuts no announcement
off, as long as the ids last. -/
theorem inv_run {next : Pair → PairEvent → Option Pair} {Q : Pair → Prop}
    (hnext : ∀ {s e s'}, next s e = some s' → s.uncut e = true ∧ step cfg s e = some s')
    (hstep : ∀ {s e s'}, s.Inv cfg → Q s → next s e = some s' → Q s') (hinit : Q (init cfg))
    (hr : Reachable next (init cfg) s) (hlen : s.a.tasks.length < 2 ^ 32 - 1) : s.Inv cfg ∧ Q s := by
  have hrun : s.Base cfg ∧ (s.a.tasks.length < 2 ^ 32 - 1 → s.Inv cfg ∧ Q s) := by
    refine reachable_invariant (P := fun s => s.Base cfg ∧ (s.a.tasks.length < 2 ^ 32 - 1 → s.Inv cfg ∧ Q s))
      ?_ ⟨base_init cfg, fun _ => ⟨inv_init cfg, hinit⟩⟩ hr
    rintro s e s' ⟨hbase, ih⟩ hs
    obtain ⟨hcut, hs'⟩ := hnext hs
    have hle := length_step hbase hs'
    refine ⟨hbase.step hs', fun hlen' => ?_⟩
    obtain ⟨hinv, hq⟩ := ih (by omega)
    exact ⟨hinv.step hs' hcut hlen', hstep hinv hq hs⟩
  exact hrun.2 hlen

end Pair

end CtAgent.Forward
