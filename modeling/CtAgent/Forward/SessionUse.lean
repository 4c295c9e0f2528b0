import CtAgent.Forward.EngineShape

/-! The session window and the pumps that use it: where a pump is tells what it waits for and what
it holds, and what is unacknowledged grows by exactly the bytes that are queued. -/
namespace CtAgent.Forward
open CtAgent.Lib

/-- What the up half asks the session window for. -/
def Up.waitsFor : Up → Option ℕ
  | .window chunk => some chunk.length
  | _ => none

/-- What the up half holds of the session window. -/
def Up.holds : Up → Option ℕ
  | .room chunk => some chunk.length
  | _ => none

/-- The sum of a measure over frames. -/
def tally (μ : Frame → ℕ) (fs : List Frame) : ℕ := (fs.map μ).sum

section
variable (μ : Frame → ℕ) (f : Frame) (fs gs : List Frame)

@[simp] theorem tally_nil : tally μ [] = 0 := rfl
@[simp] theorem tally_cons : tally μ (f :: fs) = μ f + tally μ fs := by
  simp [tally]
@[simp] theorem tally_append : tally μ (fs ++ gs) = tally μ fs + tally μ gs := by
  simp [tally]

end

section Line
variable {κ : Type*} [DecidableEq κ] {up : κ → Up} {s c : Semaphore κ} {k : κ} {n : ℕ} {u : Up}

/-- The takes that wait at one part of the window, at most one for each pump. -/
structure Line (up : κ → Up) (s : Semaphore κ) : Prop where
  keys : (s.asks.map Prod.fst).Nodup
  waiting : ∀ x ∈ s.asks, (up x.1).waitsFor = some x.2

omit [DecidableEq κ] in
theorem Line.of_asks (h : Line up s) (hc : c.asks = s.asks) : Line up c := by
  constructor
  · rw [hc]
    exact h.keys
  · rw [hc]
    exact h.waiting

/-- A pump that does not wait may go anywhere. -/
theorem Line.update (h : Line up s) (hk : ∀ x ∈ s.asks, x.1 ≠ k) (u : Up) :
    Line (Function.update up k u) s := by
  refine ⟨h.keys, fun x hx => ?_⟩
  rw [Function.update_of_ne (hk x hx)]
  exact h.waiting x hx

theorem Line.erase (h : Line up s) (u : Up) (hc : c.asks = s.asks.eraseP (fun x => x.1 = k)) :
    Line (Function.update up k u) c := by
  constructor
  · rw [hc]
    exact nodup_eraseP_key h.keys _
  · intro x hx
    rw [hc] at hx
    obtain ⟨hm, hne⟩ := mem_eraseP_key h.keys hx
    rw [Function.update_of_ne hne]
    exact h.waiting x hm

theorem Line.cancel (h : Line up s) (u : Up) : Line (Function.update up k u) (s.cancel k) :=
  h.erase u (Semaphore.asks_cancel k s)

omit [DecidableEq κ] in
theorem Line.wait (h : Line up s) (hk : ∀ x ∈ s.asks, x.1 ≠ k) (hu : (up k).waitsFor = some n)
    (hq : s.acquire k n = (false, c)) : Line up c := by
  have hc := Semaphore.asks_acquire_wait hq
  constructor
  · rw [hc, List.map_append, List.map_cons, List.map_nil, List.nodup_append]
    refine ⟨h.keys, List.nodup_singleton k, ?_⟩
    intro a ha b hb
    obtain ⟨x, hx, rfl⟩ := List.mem_map.mp ha
    rw [List.mem_singleton.mp hb]
    exact hk x hx
  · intro x hx
    rw [hc, List.mem_append, List.mem_singleton] at hx
    rcases hx with hx | rfl
    · exact h.waiting x hx
    · exact hu

omit [DecidableEq κ] in
/-- Nobody waits under the key of a pump that waits for nothing. -/
theorem Line.idle (h : Line up s) (hu : (up k).waitsFor = none) : ∀ x ∈ s.asks, x.1 ≠ k := by
  rintro x hx rfl
  rw [h.waiting x hx] at hu
  cases hu

end Line

namespace SessionWindow
variable {κ : Type*} [DecidableEq κ] {cap : ℕ} {up : κ → Up} {w w' : SessionWindow κ} {k : κ} {chunk : Bytes}

/-- A window of `cap` bytes against the places of its pumps. -/
structure Serves (cap : ℕ) (up : κ → Up) (w : SessionWindow κ) : Prop where
  inv : ∃ firstCap budgetCap, firstCap + budgetCap = cap ∧ w.Inv firstCap budgetCap
  keys : (w.sending.map Prod.fst).Nodup
  holding : ∀ kc ∈ w.sending, (up kc.1).holds = some kc.2.bytes
  first : Line up w.send.first
  budget : Line up w.send.budget

omit [DecidableEq κ] in
theorem serves_new {window : UInt32} {s : SessionSend κ}
    (h : SessionSend.fromHello window = .ok (some s)) (up : κ → Up) :
    Serves (min window.toNat sessionWindowMax) up ⟨s, []⟩ := by
  have hi := fromHello_inv h
  obtain ⟨hcap, -, -, hs⟩ := fromHello_some h
  have hline : ∀ n, Line up (Semaphore.new n) := by
    intro n
    exact ⟨List.nodup_nil, fun x hx => absurd hx List.not_mem_nil⟩
  refine ⟨⟨_, _, hcap, hi⟩, List.nodup_nil, fun kc hk => absurd hk List.not_mem_nil, ?_, ?_⟩
  · rw [hs]
    exact hline _
  · rw [hs]
    exact hline _

omit [DecidableEq κ] in
theorem fromHello_unacknowledged {window : UInt32} {s : SessionSend κ}
    (h : SessionSend.fromHello window = .ok (some s)) : s.unacknowledged = 0 := by
  obtain ⟨-, -, -, hs⟩ := fromHello_some h
  rw [hs]
  rfl

omit [DecidableEq κ] in
/-- No more is unacknowledged than the window has. -/
theorem Serves.unacknowledged_le (h : w.Serves cap up) : w.send.unacknowledged ≤ cap := by
  obtain ⟨fc, bc, hcap, hi⟩ := h.inv
  have h1 := hi.first_part
  have h2 := hi.budget_part
  have h3 : w.send.unacknowledged ≤ w.send.owed.first + w.send.owed.budget := Nat.sub_le _ _
  omega

/-- The place of a pump that neither waits nor holds is no matter of the window. -/
theorem Serves.idle (h : w.Serves cap up) (hw : (up k).waitsFor = none) (hh : (up k).holds = none) (u : Up) :
    w.Serves cap (Function.update up k u) := by
  refine ⟨h.inv, h.keys, fun kc hk => ?_, h.first.update (h.first.idle hw) u,
    h.budget.update (h.budget.idle hw) u⟩
  have hne : kc.1 ≠ k := by
    rintro rfl
    rw [h.holding kc hk] at hh
    cases hh
  rw [Function.update_of_ne hne]
  exact h.holding kc hk

theorem holds_none (h : w.holds k = none) : ∀ kc ∈ w.sending, kc.1 ≠ k := by
  intro kc hk
  simpa using List.find?_eq_none.mp h kc hk

/-- A chunk is taken: what the pump waited for it now holds. -/
theorem Serves.taken (h : w.Serves cap up) (hk : w.holds k = none) {s : SessionSend κ} (fromFirst : Bool)
    (hf : Line (Function.update up k (.room chunk)) s.first)
    (hb : Line (Function.update up k (.room chunk)) s.budget) {firstCap budgetCap : ℕ}
    (hcap : firstCap + budgetCap = cap)
    (hi : Inv firstCap budgetCap ⟨s, (k, ⟨fromFirst, chunk.length⟩) :: w.sending⟩) :
    Serves cap (Function.update up k (.room chunk)) ⟨s, (k, ⟨fromFirst, chunk.length⟩) :: w.sending⟩ := by
  have hne := holds_none hk
  refine ⟨⟨_, _, hcap, hi⟩, ?_, ?_, hf, hb⟩
  · rw [List.map_cons, List.nodup_cons]
    refine ⟨fun hm => ?_, h.keys⟩
    obtain ⟨kc, hkc, he⟩ := List.mem_map.mp hm
    exact hne kc hkc he
  · intro kc hkc
    rcases List.mem_cons.mp hkc with rfl | hkc
    · rw [Function.update_self]
      rfl
    · rw [Function.update_of_ne (hne kc hkc)]
      exact h.holding kc hkc

omit [DecidableEq κ] in
theorem unacknowledged_taken (fromFirst : Bool) (bytes : ℕ) (s : SessionSend κ) :
    (s.taken fromFirst bytes).unacknowledged = s.unacknowledged := by
  simp only [SessionSend.taken, SessionSend.unacknowledged]
  split <;> omega

omit [DecidableEq κ] in
theorem unacknowledged_congr {s s' : SessionSend κ} (h : s'.owed = s.owed) :
    s'.unacknowledged = s.unacknowledged := by
  rw [SessionSend.unacknowledged, SessionSend.unacknowledged, h]

theorem waits_none (h : w.send.waits k = false) :
    (∀ x ∈ w.send.first.asks, x.1 ≠ k) ∧ ∀ x ∈ w.send.budget.asks, x.1 ≠ k := by
  simp only [SessionSend.waits, Bool.or_eq_false_iff, Option.isSome_eq_false_iff,
    Option.isNone_iff_eq_none] at h
  exact ⟨Semaphore.waiter?_none h.1, Semaphore.waiter?_none h.2⟩

/-- What the first poll of a take leaves in the two parts. -/
theorem Serves.take_lines (h : w.Serves cap up) (hu : up k = .window chunk) (hw : w.send.waits k = false)
    (firstChunk : Bool) :
    (∃ (s : SessionSend κ) (fromFirst : Bool), w.take k firstChunk chunk.length =
        ⟨s.taken fromFirst chunk.length, (k, ⟨fromFirst, chunk.length⟩) :: w.sending⟩ ∧ s.owed = w.send.owed ∧
      Line (Function.update up k (.room chunk)) s.first ∧ Line (Function.update up k (.room chunk)) s.budget) ∨
    (∃ s : SessionSend κ, w.take k firstChunk chunk.length = ⟨s, w.sending⟩ ∧ s.owed = w.send.owed ∧
      Line up s.first ∧
      Line up s.budget) := by
  obtain ⟨hwf, hwb⟩ := waits_none hw
  have hask : (up k).waitsFor = some chunk.length := by rw [hu]; rfl
  -- a part that has the permits at once keeps its line
  have hready : ∀ s c : Semaphore κ, Line up s → (∀ x ∈ s.asks, x.1 ≠ k) →
      s.acquire k chunk.length = (true, c) → Line (Function.update up k (.room chunk)) c := by
    intro s c hs hn hq
    have hc := Semaphore.asks_acquire_ready hq
    exact (hs.of_asks hc).update (hc ▸ hn) _
  cases firstChunk with
  | true =>
    cases hf : w.send.first.acquire k chunk.length with
    | mk ready f =>
      cases ready with
      | true =>
        refine .inl ⟨{ w.send with first := f }, true, ?_, rfl, hready _ _ h.first hwf hf,
          h.budget.update hwb _⟩
        simp only [SessionWindow.take, SessionSend.take, hf, if_true]
      | false =>
        have hline := h.first.wait hwf hask hf
        cases hb : w.send.budget.acquire k chunk.length with
        | mk ready b =>
          cases ready with
          | true =>
            refine .inl ⟨{ w.send with first := f.cancel k, budget := b }, false, ?_, rfl, hline.cancel _,
              hready _ _ h.budget hwb hb⟩
            simp only [SessionWindow.take, SessionSend.take, hf, hb, if_true]
          | false =>
            refine .inr ⟨{ w.send with first := f, budget := b }, ?_, rfl, hline, h.budget.wait hwb hask hb⟩
            simp only [SessionWindow.take, SessionSend.take, hf, hb, if_true]
  | false =>
    cases hb : w.send.budget.acquire k chunk.length with
    | mk ready b =>
      cases ready with
      | true =>
        refine .inl ⟨{ w.send with budget := b }, false, ?_, rfl, h.first.update hwf _,
          hready _ _ h.budget hwb hb⟩
        simp only [SessionWindow.take, SessionSend.take, hb, Bool.false_eq_true, if_false]
      | false =>
        refine .inr ⟨{ w.send with budget := b }, ?_, rfl, h.first, h.budget.wait hwb hask hb⟩
        simp only [SessionWindow.take, SessionSend.take, hb, Bool.false_eq_true, if_false]

/-- The first poll of a take: the pump goes on with its chunk, or waits where it is. -/
theorem Serves.take (h : w.Serves cap up) (hu : up k = .window chunk) (hw : w.send.waits k = false)
    (hk : w.holds k = none) (firstChunk : Bool) :
    (w.take k firstChunk chunk.length).send.unacknowledged = w.send.unacknowledged ∧
    (w.take k firstChunk chunk.length).Serves cap (if ((w.take k firstChunk chunk.length).holds k).isSome
      then Function.update up k (.room chunk) else up) := by
  obtain ⟨fc, bc, hcap, hi⟩ := h.inv
  have hti := inv_take k firstChunk chunk.length hi
  rcases h.take_lines hu hw firstChunk with ⟨s, fromFirst, hs, ho, hf, hb⟩ | ⟨s, hs, ho, hf, hb⟩
  · rw [hs] at hti ⊢
    rw [if_pos (by simp [holds])]
    refine ⟨(unacknowledged_taken _ _ s).trans (unacknowledged_congr ho), ?_⟩
    exact h.taken hk fromFirst hf hb hcap hti
  · have hn : (⟨s, w.sending⟩ : SessionWindow κ).holds k = none := hk
    rw [hs] at hti ⊢
    rw [if_neg (by simp [hn])]
    exact ⟨unacknowledged_congr ho, ⟨_, _, hcap, hti⟩, h.keys, h.holding, hf, hb⟩

/-- A later poll: the take that waited is done. -/
theorem Serves.poll (h : w.Serves cap up) (hu : up k = .window chunk) (hq : w.poll k = some w') :
    w'.send.unacknowledged = w.send.unacknowledged ∧ w'.Serves cap (Function.update up k (.room chunk)) := by
  have hask : (up k).waitsFor = some chunk.length := by rw [hu]; rfl
  have hhold : w.holds k = none := by
    refine List.find?_eq_none.mpr fun kc hk => ?_
    intro he
    have hkc := h.holding kc hk
    rw [show kc.1 = k by simpa using he, hu] at hkc
    cases hkc
  have hlen : ∀ (s : Semaphore κ) n c, Line up s → s.complete k = some (n, c) → n = chunk.length := by
    intro s n c hs hc
    have hn := hs.waiting _ (Semaphore.asks_complete hc).1
    rw [hask, Option.some.injEq] at hn
    exact hn.symm
  obtain ⟨fc, bc, hcap, hi⟩ := h.inv
  have hti := inv_poll k hi hq
  simp only [SessionWindow.poll, Option.map_eq_some_iff, SessionSend.takePoll] at hq
  obtain ⟨cs, hcs, rfl⟩ := hq
  split at hcs
  · rename_i n f hf
    cases hcs
    cases hlen _ n f h.first hf
    refine ⟨unacknowledged_taken _ _ _, h.taken hhold true ?_ (h.budget.cancel _) hcap hti⟩
    exact h.first.erase _ (Semaphore.asks_complete hf).2
  · split at hcs
    · rename_i n b hb
      cases hcs
      cases hlen _ n b h.budget hb
      refine ⟨unacknowledged_taken _ _ _, h.taken hhold false (h.first.cancel _) ?_ hcap hti⟩
      exact h.budget.erase _ (Semaphore.asks_complete hb).2
    · cases hcs

theorem Serves.release (h : w.Serves cap up) (u : Up) :
    ((w.release k).map Prod.fst).Nodup ∧
      ∀ kc ∈ w.release k, (Function.update up k u kc.1).holds = some kc.2.bytes := by
  refine ⟨nodup_eraseP_key h.keys _, fun kc hk => ?_⟩
  obtain ⟨hm, hne⟩ := mem_eraseP_key h.keys hk
  rw [Function.update_of_ne hne]
  exact h.holding kc hm

/-- A queued chunk is unacknowledged from then on. -/
theorem Serves.queued (h : w.Serves cap up) (hu : up k = .room chunk) (hq : w.queued k = some w') :
    w'.send.unacknowledged = w.send.unacknowledged + chunk.length ∧
      w'.Serves cap (Function.update up k .reading) := by
  obtain ⟨fc, bc, hcap, hi⟩ := h.inv
  have hti := inv_queued k hi hq
  simp only [SessionWindow.queued, Option.map_eq_some_iff] at hq
  obtain ⟨kc, hkc, rfl⟩ := hq
  have hm := List.mem_of_find?_eq_some hkc
  have hb : kc.2.bytes = chunk.length := by
    have hh := h.holding kc hm
    have hk : kc.1 = k := by simpa using List.find?_some hkc
    rw [hk, hu] at hh
    simpa [Up.holds] using hh.symm
  have hle := holds_bytes_le hi hm
  have hsle := hi.sending_le
  have hwait : (up k).waitsFor = none := by rw [hu]; rfl
  refine ⟨?_, ⟨_, _, hcap, hti⟩, (h.release .reading).1, (h.release .reading).2,
    h.first.update (h.first.idle hwait) _,
    h.budget.update (h.budget.idle hwait) _⟩
  simp only [SessionSend.queued, SessionSend.unacknowledged]
  omega

omit [DecidableEq κ] in
theorem unacknowledged_dropped {firstCap budgetCap : ℕ} (h : w.Inv firstCap budgetCap)
    {kc : κ × SessionSending} (hk : kc ∈ w.sending) :
    (w.send.dropped kc.2).unacknowledged = w.send.unacknowledged := by
  have hle := holds_bytes_le h hk
  have hg := giveBack_exact kc.2 w.send (Nat.le_trans hle h.sending_le)
  have hs := h.sending_le
  unfold SessionSend.dropped
  split
  · rfl
  · simp only [SessionSend.unacknowledged]
    omega

/-- A pump that leaves gives back what it waited with and what it held. -/
theorem Serves.leave (h : w.Serves cap up) (u : Up) :
    (((w.cancel k).drop k).getD (w.cancel k)).send.unacknowledged = w.send.unacknowledged ∧
      (((w.cancel k).drop k).getD (w.cancel k)).Serves cap (Function.update up k u) := by
  obtain ⟨fc, bc, hcap, hi⟩ := h.inv
  have hci := inv_cancel k hi
  have hf : Line (Function.update up k u) (w.cancel k).send.first := h.first.cancel u
  have hb : Line (Function.update up k u) (w.cancel k).send.budget := h.budget.cancel u
  cases hd : (w.cancel k).drop k with
  | none =>
    have hn : w.holds k = none := by
      simpa [SessionWindow.drop, SessionWindow.cancel, holds] using hd
    refine ⟨rfl, ⟨_, _, hcap, hci⟩, h.keys, fun kc hk => ?_, hf, hb⟩
    rw [Function.update_of_ne (holds_none hn kc hk)]
    exact h.holding kc hk
  | some w' =>
    have hdi := inv_drop k hci hd
    simp only [SessionWindow.drop, Option.map_eq_some_iff] at hd
    obtain ⟨kc, hkc, rfl⟩ := hd
    have hu := unacknowledged_dropped hci (List.mem_of_find?_eq_some hkc)
    -- dropping a chunk adds permits and nobody to the lines
    have hlines : (SessionSend.dropped kc.2 (w.cancel k).send).first.asks = (w.cancel k).send.first.asks ∧
        (SessionSend.dropped kc.2 (w.cancel k).send).budget.asks = (w.cancel k).send.budget.asks := by
      unfold SessionSend.dropped
      split
      · exact ⟨rfl, rfl⟩
      · exact ⟨Semaphore.asks_addPermits _ _, Semaphore.asks_addPermits _ _⟩
    refine ⟨hu, ⟨_, _, hcap, hdi⟩, (h.release u).1, (h.release u).2, hf.of_asks hlines.1, hb.of_asks hlines.2⟩

omit [DecidableEq κ] in
/-- What the peer acknowledges is no longer unacknowledged. -/
theorem Serves.acknowledge (h : w.Serves cap up) {bytes : ℕ} (hb : bytes ≤ w.send.unacknowledged) :
    (w.acknowledge bytes).send.unacknowledged + bytes = w.send.unacknowledged ∧
      (w.acknowledge bytes).Serves cap up := by
  obtain ⟨fc, bc, hcap, hi⟩ := h.inv
  have hti := inv_acknowledge bytes hi
  have hle := hi.sending_le
  have hn : ¬ w.send.owed.first + w.send.owed.budget - w.send.owed.sending < bytes := Nat.not_lt.mpr hb
  have hs : w.acknowledge bytes = ⟨{ w.send with
      owed := ⟨w.send.owed.first - min bytes w.send.owed.first,
        w.send.owed.budget - (bytes - min bytes w.send.owed.first), w.send.owed.sending⟩
      first := w.send.first.addPermits (min bytes w.send.owed.first)
      budget := w.send.budget.addPermits (bytes - min bytes w.send.owed.first) }, w.sending⟩ := by
    simp only [SessionWindow.acknowledge, SessionSend.acknowledge, if_neg hn]
  rw [hs] at hti ⊢
  refine ⟨?_, ⟨_, _, hcap, hti⟩, h.keys, h.holding, h.first.of_asks (Semaphore.asks_addPermits _ _),
    h.budget.of_asks (Semaphore.asks_addPermits _ _)⟩
  simp only [SessionSend.unacknowledged] at hb ⊢
  omega

end SessionWindow

namespace Engine
variable {cfg : EngineConfig} {grant : ℕ} {s s' : Engine} {e : EngineEvent} {w : List Frame}

/-- Where the up half of each task is. -/
def ups (s : Engine) (tid : ℕ) : Up := ((s.tasks[tid]?).map Task.up).getD .done

/-- The session window of an engine whose peer grants `grant`, and its tasks. A window is granted
before the first stream, and then every stream runs with it. -/
structure Windowed (cfg : EngineConfig) (grant : ℕ) (s : Engine) : Prop where
  serves : ∀ w, s.session = some w → w.Serves grant s.ups
  sessions : ∀ t ∈ s.tasks, t.session = s.session.isSome
  begun : s.tasks ≠ [] → s.late cfg = true
  spoken : cfg.initiates = true → s.session.isSome = true → s.peerSpeaksFc = true
  enabled : s.session.isSome = true → cfg.fcEnabled = true

theorem windowed_init (cfg : EngineConfig) (grant : ℕ) : (init cfg).Windowed cfg grant where
  serves w h := by cases h
  sessions t h := by cases h
  begun h := absurd rfl h
  spoken _ h := by cases h
  enabled h := by cases h

theorem ups_of_faces (h : s'.tasks.map Task.face = s.tasks.map Task.face) : s'.ups = s.ups := by
  funext tid
  have ht := congrArg (fun fs : List Face => ((fs[tid]?).map Face.up).getD .done) h
  simp only [List.getElem?_map, Option.map_map] at ht
  exact ht

/-- A step that leaves the window and the places of the pumps alone. -/
theorem Windowed.of_faces (h : s.Windowed cfg grant) (hs : s'.session = s.session)
    (hf : s'.tasks.map Task.face = s.tasks.map Task.face) (ha : s.accepting = true → s'.accepting = true)
    (ho : s.opened = true → s'.opened = true) (hp : s.peerSpeaksFc = true → s'.peerSpeaksFc = true) :
    s'.Windowed cfg grant where
  serves w hw := by
    rw [ups_of_faces hf]
    exact h.serves w (hs ▸ hw)
  sessions t ht := by
    have hm : t.face ∈ s.tasks.map Task.face := by
      rw [← hf]
      exact List.mem_map_of_mem ht
    obtain ⟨u, hu, he⟩ := List.mem_map.mp hm
    have hsess : t.session = u.session := (congrArg Face.session he).symm
    rw [hsess, hs]
    exact h.sessions u hu
  begun hn := by
    have hb := h.begun fun he => hn (by simpa [he] using hf)
    revert hb
    unfold late
    split
    · exact ha
    · exact ho
  spoken hi hw := hp (h.spoken hi (hs ▸ hw))
  enabled hw := h.enabled (hs ▸ hw)

theorem Windowed.touched (h : s.Windowed cfg grant) (ht : s.Touched s') : s'.Windowed cfg grant := by
  have he := ht.eq
  refine h.of_faces ?_ ht.faces ?_ ?_ ?_
  · rw [he]
  · rw [he]
    exact id
  · rw [he]
    exact id
  · rw [he]
    exact id

theorem sendAck_eq (ack : Option Frame × SessionRecv) (s : Engine) :
    s.sendAck ack =
      { s with recv := ack.2, ctrl := (s.sendAck ack).ctrl, ended := (s.sendAck ack).ended } := by
  unfold sendAck
  split
  · unfold ctrlSend
    split
    · rfl
    · split <;> rfl
  · rfl

theorem Windowed.sendAck (h : s.Windowed cfg grant) (ack : Option Frame × SessionRecv) :
    (s.sendAck ack).Windowed cfg grant := by
  rw [sendAck_eq]
  exact { h with }

theorem ctrlSend_eq (f : Frame) (s : Engine) :
    s.ctrlSend f = { s with ctrl := (s.ctrlSend f).ctrl, ended := (s.ctrlSend f).ended } := by
  unfold ctrlSend
  split
  · rfl
  · split <;> rfl

theorem Windowed.ctrlSend (h : s.Windowed cfg grant) (f : Frame) : (s.ctrlSend f).Windowed cfg grant := by
  rw [ctrlSend_eq]
  exact { h with }

/-- Before the HELLO is late there are no tasks. -/
theorem Windowed.tasks_nil (h : s.Windowed cfg grant) (hl : s.late cfg = false) : s.tasks = [] := by
  by_contra hne
  have hb := h.begun hne
  rw [hl] at hb
  cases hb

theorem Windowed.hello (h : s.Windowed cfg grant) (hfc : cfg.fcEnabled = true) {window : Option UInt32}
    (hg : min (window.getD 0).toNat sessionWindowMax = grant) (hh : Heard cfg s window s') :
    s'.Windowed cfg grant := by
  cases hh with
  | late hl =>
    refine h.of_faces rfl rfl ?_ id ?_
    · intro ha
      simp only [heard, ha, Bool.true_or]
    · intro hp
      simp only [heard, hp, Bool.true_or]
  | granted session hl hs =>
    have hn := h.tasks_nil hl
    refine ⟨fun w hw => ?_, fun t ht => ?_, fun hne => absurd hn hne, fun hi _ => ?_, fun _ => hfc⟩
    · rcases hs with rfl | ⟨send, hf, rfl⟩
      · cases hw
      · cases hw
        exact hg ▸ SessionWindow.serves_new hf _
    · have ht' : t ∈ s.tasks := ht
      rw [hn] at ht'
      cases ht'
    · simp only [heard, hi, Bool.or_true]
  | below on hl hf => exact { h with }

theorem ups_spawn (t : Task) (s : Engine) :
    (s.spawn t).ups = Function.update s.ups s.tasks.length t.up := by
  funext tid
  simp only [ups, spawn]
  rcases Nat.lt_trichotomy tid s.tasks.length with hlt | rfl | hgt
  · rw [List.getElem?_append_left hlt, Function.update_of_ne (Nat.ne_of_lt hlt)]
    rfl
  · rw [List.getElem?_concat_length, Function.update_self]
    rfl
  · rw [List.getElem?_eq_none (by simp; omega), Function.update_of_ne (Nat.ne_of_gt hgt), ups,
      List.getElem?_eq_none (Nat.le_of_lt hgt)]

/-- A new stream runs with the session window if there is one. -/
theorem Windowed.spawn (h : s.Windowed cfg grant) (id : UInt32) (credited : Bool) (phase : Phase)
    {session : Bool}
    (hs : session = s.session.isSome) (hb : s.late cfg = true) :
    (s.spawn (.new id credited session phase)).Windowed cfg grant where
  serves w hw := by
    rw [ups_spawn]
    have hd : s.ups s.tasks.length = .done := by
      simp [ups]
    exact (h.serves w hw).idle (by rw [hd]; rfl) (by rw [hd]; rfl) _
  sessions t ht := by
    rcases List.mem_append.mp ht with ht | ht
    · exact h.sessions t ht
    · rw [List.mem_singleton.mp ht]
      exact hs
  begun _ := hb
  spoken := h.spoken
  enabled := h.enabled

theorem streamLen_window (id bytes : UInt32) : (windowFrame id bytes).streamLen = 0 := by
  simp [windowFrame, Frame.streamLen]

/-- A step of a pump at the window: what it queues is unacknowledged from then on. -/
theorem serves_moves {up : ℕ → Up} {w : SessionWindow ℕ} {session : Option (SessionWindow ℕ)} {tid : ℕ}
    {t : Task} {m : PumpMove} {orphan : Bool} {cap : ℕ} (h : w.Serves cap up) (hu : up tid = t.up)
    (hs : t.session = true) (hid : t.id ≠ controlId) (hm : t.Moves orphan m)
    (huse : useWindow tid m.window (some w) = some session) :
    ∃ w', session = some w' ∧ w'.Serves cap (Function.update up tid m.task.up) ∧
      w'.send.unacknowledged = w.send.unacknowledged + tally Frame.streamLen m.frames := by
  -- the window is not asked, and the pump stays where it is
  have hstay : m.window = .none → m.task.up = t.up → tally Frame.streamLen m.frames = 0 →
      ∃ w', session = some w' ∧ w'.Serves cap (Function.update up tid m.task.up) ∧
        w'.send.unacknowledged = w.send.unacknowledged + tally Frame.streamLen m.frames := by
    intro h1 h2 h3
    rw [h1] at huse
    cases huse
    refine ⟨w, rfl, ?_, by rw [h3, Nat.add_zero]⟩
    rw [h2, ← hu, Function.update_eq_self]
    exact h
  -- the pump goes from one place to another and the window has no part in either
  have hidle : m.window = .none → t.up.waitsFor = none → t.up.holds = none →
      tally Frame.streamLen m.frames = 0 →
      ∃ w', session = some w' ∧ w'.Serves cap (Function.update up tid m.task.up) ∧
        w'.send.unacknowledged = w.send.unacknowledged + tally Frame.streamLen m.frames := by
    intro h1 h2 h3 h4
    rw [h1] at huse
    cases huse
    rw [← hu] at h2 h3
    exact ⟨w, rfl, h.idle h2 h3 _, by rw [h4, Nat.add_zero]⟩
  have hleave : m.window = .leave → tally Frame.streamLen m.frames = 0 →
      ∃ w', session = some w' ∧ w'.Serves cap (Function.update up tid m.task.up) ∧
        w'.send.unacknowledged = w.send.unacknowledged + tally Frame.streamLen m.frames := by
    intro h1 h2
    rw [h1] at huse
    cases huse
    have hl := h.leave (k := tid) m.task.up
    exact ⟨_, rfl, hl.2, by rw [h2, Nat.add_zero]; exact hl.1⟩
  cases hm with
  | stop frames ha hf =>
    refine hleave rfl ?_
    rcases hf with rfl | ⟨why, rfl⟩
    · rfl
    · rfl
  | refused chunk => exact hleave rfl rfl
  | wroteStop payload rest => exact hleave rfl rfl
  | opened target => exact hstay rfl rfl rfl
  | offered chunk hp hup => exact hidle rfl (by rw [hup]; rfl) (by rw [hup]; rfl) rfl
  | bought chunk c hp hup => exact hidle rfl (by rw [hup]; rfl) (by rw [hup]; rfl) rfl
  | asked chunk c hp hup => exact hidle rfl (by rw [hup]; rfl) (by rw [hup]; rfl) rfl
  | granted chunk n c hp hup => exact hidle rfl (by rw [hup]; rfl) (by rw [hup]; rfl) rfl
  | closed hp hup =>
    refine hidle rfl ?_ ?_ rfl
    · rcases hup with hup | hup <;> rw [hup] <;> rfl
    · rcases hup with hup | hup <;> rw [hup] <;> rfl
  | closing u hp hup => exact hidle rfl (by rw [hup]; rfl) (by rw [hup]; rfl) rfl
  | waits chunk hp hup =>
    simp only [useWindow] at huse
    split at huse
    · rename_i hg
      obtain ⟨h1, h2, h3⟩ := hg
      cases huse
      have ht := h.take (hu.trans hup) h1 h2 t.firstChunk
      rw [h3, if_neg (by simp)] at ht
      refine ⟨_, rfl, ?_, ht.1⟩
      rw [← hu, Function.update_eq_self]
      exact ht.2
    · cases huse
  | took chunk use hp hup hask =>
    rcases hask with rfl | rfl
    · simp only [useWindow] at huse
      split at huse
      · rename_i hg
        obtain ⟨h1, h2, h3⟩ := hg
        cases huse
        have ht := h.take (hu.trans hup) h1 h2 t.firstChunk
        rw [h3, if_pos rfl] at ht
        exact ⟨_, rfl, ht.2, ht.1⟩
      · cases huse
    · simp only [useWindow, Option.map_eq_some_iff] at huse
      obtain ⟨w', hw', rfl⟩ := huse
      have hp' := h.poll (hu.trans hup) hw'
      exact ⟨w', rfl, hp'.2, hp'.1⟩
  | queued chunk hp hup =>
    simp only [hs, if_true, useWindow, Option.map_eq_some_iff] at huse
    obtain ⟨w', hw', rfl⟩ := huse
    have hq := h.queued (hu.trans hup) hw'
    refine ⟨w', rfl, hq.2, ?_⟩
    rw [hq.1]
    simp [Frame.streamLen, hid]
  | wroteReported payload rest =>
    exact hstay rfl rfl (by simp [Task.goto, streamLen_window])
  | reported => exact hstay rfl rfl (by simp [Task.goto, streamLen_window])
  | _ => exact hstay rfl rfl rfl

theorem ups_set {tid : ℕ} {t : Task} (ht : s.tasks[tid]? = some t) {u : Task}
    (h : s'.tasks = s.tasks.set tid u) : s'.ups = Function.update s.ups tid u.up := by
  funext k
  have hlt := (List.getElem?_eq_some_iff.mp ht).1
  simp only [ups, h]
  by_cases hk : k = tid
  · subst hk
    rw [Function.update_self, List.getElem?_set_self hlt]
    rfl
  · rw [Function.update_of_ne hk, List.getElem?_set_ne (Ne.symm hk)]
    rfl

/-- A step of a pump at an engine. -/
theorem Windowed.onPump (h : s.Windowed cfg grant) (htab : s.Tables cfg) {tid : ℕ} {pe : PumpEvent}
    (hq : s.onPump tid pe = some s') :
    s'.Windowed cfg grant ∧ ∃ frames, s'.out = s.out ++ frames ∧ s'.ctrl = s.ctrl ∧
      ∀ w', s'.session = some w' → ∃ w, s.session = some w ∧
        w'.send.unacknowledged = w.send.unacknowledged + tally Frame.streamLen frames := by
  obtain ⟨t, m, session, ht, hm, -, huse, rfl⟩ := onPump_eq hq
  have hmem := List.mem_of_getElem? ht
  have hups : s.ups tid = t.up := by simp [ups, ht]
  have hid := htab.id_ne ht (Task.moves_running hm)
  have hsess := h.sessions t hmem
  have hsome : session.isSome = s.session.isSome := by
    cases hs : s.session with
    | none =>
      rw [hs] at huse
      cases hw : m.window <;> rw [hw] at huse <;> simp [useWindow] at huse <;> simp [← huse]
    | some w =>
      obtain ⟨w', rfl, -⟩ := serves_moves (h.serves w hs) hups (by rw [hsess, hs]; rfl) hid hm (hs ▸ huse)
      rfl
  have hmove : ∀ w', session = some w' → ∃ w, s.session = some w ∧
      w'.Serves grant (Function.update s.ups tid m.task.up) ∧
      w'.send.unacknowledged = w.send.unacknowledged + tally Frame.streamLen m.frames := by
    intro w' hw'
    obtain ⟨w, hw⟩ := Option.isSome_iff_exists.mp (by rw [← hsome, hw']; rfl : s.session.isSome = true)
    obtain ⟨w'', he, h1, h2⟩ := serves_moves (h.serves w hw) hups (by rw [hsess, hw]; rfl) hid hm (hw ▸ huse)
    rw [hw'] at he
    cases he
    exact ⟨w, hw, h1, h2⟩
  refine ⟨⟨fun w' hw' => ?_, fun u hu => ?_, fun _ => ?_, fun hi hw => ?_, fun hw => ?_⟩, m.frames, rfl, rfl,
    fun w' hw' => ?_⟩
  · obtain ⟨w, -, hserv, -⟩ := hmove w' hw'
    rw [ups_set (s := s) ht rfl]
    exact hserv
  · change u.session = session.isSome
    rw [hsome]
    rcases List.mem_or_eq_of_mem_set hu with hu | rfl
    · exact h.sessions u hu
    · rw [Task.moves_session hm]
      exact hsess
  · exact h.begun (List.ne_nil_of_mem hmem)
  · exact h.spoken hi (hsome ▸ hw)
  · exact h.enabled (hsome ▸ hw)
  · obtain ⟨w, hw, -, hun⟩ := hmove w' hw'
    exact ⟨w, hw, hun⟩

/-- What an acknowledgement comes to: no window, a payment, or more than was sent. -/
theorem onSWindow_cases (bytes : ℕ) (s : Engine) :
    (s.session = none ∧ s.onSWindow bytes = s) ∨
    (∃ w, s.session = some w ∧ bytes ≤ w.send.unacknowledged ∧
      s.onSWindow bytes = { s with session := some (w.acknowledge bytes) }) ∨
    (∃ w, s.session = some w ∧ w.send.unacknowledged < bytes ∧
      s.onSWindow bytes = s.endWith .acknowledgedMore) := by
  unfold onSWindow
  cases hs : s.session with
  | none => exact .inl ⟨rfl, rfl⟩
  | some w =>
    right
    cases ha : (w.send.acknowledge bytes).1 with
    | true =>
      refine .inl ⟨w, rfl, ?_, by simp [ha]⟩
      by_contra hlt
      rw [(acknowledge_false_iff bytes w.send).mpr (Nat.lt_of_not_le hlt)] at ha
      cases ha
    | false => exact .inr ⟨w, rfl, (acknowledge_false_iff bytes w.send).mp ha, by simp [ha]⟩

theorem Windowed.step (h : s.Windowed cfg grant) (htab : s.Tables cfg)
    (hg : ∀ payload window, e = .frame (.data controlId payload) →
      parseControl payload = some (.hello window) → min (window.getD 0).toNat sessionWindowMax = grant)
    (hs : Shape cfg s e s' w) : s'.Windowed cfg grant := by
  cases hs with
  | ctrlNone => exact { h with }
  | ctrlSome => exact { h with }
  | outNone => exact { h with }
  | outSome => exact { h with }
  | writeError => exact { h with }
  | touched e s' he ht => exact h.touched ht
  | flags e accepting helloDeadline stopping he ha =>
    refine h.of_faces rfl rfl ?_ id id
    intro hacc
    rcases ha with rfl | rfl
    · exact hacc
    · rfl
  | gone => exact { h with }
  | flush => exact h.sendAck _
  | ignored f s' hf ht => exact h.touched ht
  | hello payload window s' hfc hp hh => exact h.hello hfc (hg payload window rfl hp) hh
  | swindow payload bytes hfc hp =>
    rcases onSWindow_cases bytes.toNat s with ⟨-, hq⟩ | ⟨w, hw, hle, hq⟩ | ⟨w, hw, hlt, hq⟩
    · rw [hq]
      exact h
    · rw [hq]
      refine ⟨fun w' hw' => ?_, fun t ht => ?_, h.begun,
        fun hi _ => h.spoken hi (by rw [hw]; rfl), fun _ => hfc⟩
      · cases hw'
        exact ((h.serves w hw).acknowledge hle).2
      · rw [h.sessions t ht, hw]
        rfl
    · rw [hq]
      exact { h with }
  | flood => exact { h with }
  | fcOn => exact { h with }
  | data id payload s' hid ht => exact (h.sendAck _).touched ht
  | close id reason s' ht =>
    have hq : Windowed cfg grant { s with pendingFc := s.pendingFc.erase id } := { h with }
    exact hq.touched ht
  | openIgnored => exact h
  | «open» id target s' hi hn ho =>
    have hq : (s.taken id).Windowed cfg grant := h.of_faces rfl rfl (fun ha => ha) (fun _ => rfl) fun hp => hp
    cases ho with
    | inUse => exact { h with }
    | refused reason => exact hq.ctrlSend _
    | accepted hn hroom =>
      refine hq.spawn id _ _ rfl ?_
      rw [late, hi, if_neg (by simp)]
      rfl
  | sendOpen target s' hside hc =>
    have hi : cfg.initiates = true := by rw [EngineConfig.initiates, hside]
    cases hc with
    | backlog => exact { h with }
    | sent id ho =>
      have hq : Windowed cfg grant { s with opening := none, ctrl := s.ctrl ++ [.open id target] } :=
        { h with }
      refine hq.spawn id _ _ rfl ?_
      rw [late, if_pos hi]
      exact (htab.opening_free id ho).2.2.1
  | connection target s' hside hn hc =>
    have hi : cfg.initiates = true := by rw [EngineConfig.initiates, hside]
    cases hc with
    | refused => exact h
    | backlog => exact { h with }
    | announced => exact { h with }
    | plain id ha hp =>
      have hq : Windowed cfg grant { s with nextId := bump id } := { h with }
      refine hq.spawn id _ _ ?_ ?_
      · cases hsess : s.session.isSome with
        | false => rfl
        | true =>
          rw [h.spoken hi hsess] at hp
          cases hp
      · rw [late, if_pos hi]
        exact ha
  | pump tid pe s' hq => exact (h.onPump htab hq).1

end Engine

end CtAgent.Forward
