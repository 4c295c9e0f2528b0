import CtAgent.Forward.LaneCredit
import CtAgent.Forward.PairWindow

/-! Which streams run with credit: between the FC_ON of a stream and its Open goes no Close of the
stream, so the two engines agree on it and at most one FC_ON is pending. -/
namespace CtAgent.Forward
open CtAgent.Lib

/-- The stream an FC_ON announces. -/
def Frame.fcOnFor : Frame → Option UInt32
  | .data id payload =>
    if id = controlId then
      match parseControl payload with
      | some (.fcOn k) => some k
      | _ => none
    else none
  | _ => none

theorem fcOnFor_fcOn (id : UInt32) : (fcOnFrame id).fcOnFor = some id := by
  have h := parseControl_fcOn id
  simp only [fcOnFrame, Frame.payload] at h
  simp only [Frame.fcOnFor, fcOnFrame, if_true, h]

theorem fcOnFor_swindow (bytes : UInt32) : (swindowFrame bytes).fcOnFor = none := by
  have h := parseControl_swindow bytes
  simp only [swindowFrame, Frame.payload] at h
  simp only [Frame.fcOnFor, swindowFrame, if_true, h]

theorem fcOnFor_window (id bytes : UInt32) : (windowFrame id bytes).fcOnFor = none := by
  have h := parseControl_window id bytes
  simp only [windowFrame, Frame.payload] at h
  simp only [Frame.fcOnFor, windowFrame, if_true, h]

theorem fcOnFor_hello (window : UInt32) : (helloFrame window).fcOnFor = none := by
  have h := parseControl_hello window
  simp only [helloFrame, Frame.payload] at h
  simp only [Frame.fcOnFor, helloFrame, if_true, h]

/-- The FC_ON or the Open of a stream. -/
def Frame.announces (id : UInt32) (f : Frame) : Bool := f.opens id || decide (f.fcOnFor = some id)

/-- The frame is a Close that would go between the FC_ON of its stream and its Open, which is still
queued. -/
def Frame.cutsIn (ctrl : List Frame) : Frame → Bool
  | .close id _ => (ctrl.find? (Frame.announces id)).any (Frame.opens id)
  | _ => false

/-- Frames in which every credited stream is announced before its Open, and no other one is; the
announced stream is the state, and until its Open comes there is no Close of it. -/
inductive Paired (credited : UInt32 → Option Bool) (speaks : Bool) :
    Option UInt32 → List Frame → Option UInt32 → Prop
  | nil (p : Option UInt32) : Paired credited speaks p [] p
  | fcOn {f : Frame} {fs : List Frame} {q : Option UInt32} (id : UInt32) (hf : f.fcOnFor = some id)
      (hs : speaks = true) (h : Paired credited speaks (some id) fs q) :
        Paired credited speaks none (f :: fs) q
  | opened {fs : List Frame} {q : Option UInt32} (id : UInt32) (target : String)
      (hc : credited id = some true) (h : Paired credited speaks none fs q) :
      Paired credited speaks (some id) (.open id target :: fs) q
  | plain {fs : List Frame} {p q : Option UInt32} (id : UInt32) (target : String) (hp : p ≠ some id)
      (hc : credited id = some false) (h : Paired credited speaks p fs q) :
      Paired credited speaks p (.open id target :: fs) q
  | other {f : Frame} {fs : List Frame} {p q : Option UInt32} (hf : f.fcOnFor = none)
      (ho : ∀ id target, f ≠ .open id target) (hc : ∀ id reason, p = some id → f ≠ .close id reason)
      (h : Paired credited speaks p fs q) : Paired credited speaks p (f :: fs) q

section
variable {credited credited' : UInt32 → Option Bool} {speaks speaks' : Bool} {p q r : Option UInt32}
  {fs gs : List Frame}

theorem Paired.append (h : Paired credited speaks p fs q) (h' : Paired credited speaks q gs r) :
    Paired credited speaks p (fs ++ gs) r := by
  induction h with
  | nil => exact h'
  | fcOn id hf hs _ ih => exact .fcOn id hf hs (ih h')
  | opened id target hc _ ih => exact .opened id target hc (ih h')
  | plain id target hp hc _ ih => exact .plain id target hp hc (ih h')
  | other hf ho hc _ ih => exact .other hf ho hc (ih h')

theorem Paired.mono (h : Paired credited speaks p fs q)
    (hm : ∀ id c, credited id = some c → credited' id = some c) (hs : speaks = true → speaks' = true) :
    Paired credited' speaks' p fs q := by
  induction h with
  | nil => exact .nil _
  | fcOn id hf hsp _ ih => exact .fcOn id hf (hs hsp) ih
  | opened id target hc _ ih => exact .opened id target (hm id true hc) ih
  | plain id target hp hc _ ih => exact .plain id target hp (hm id false hc) ih
  | other hf ho hc _ ih => exact .other hf ho hc ih

theorem Paired.single {f : Frame} (h : Paired credited speaks p (f :: fs) q) :
    ∃ p', Paired credited speaks p [f] p' ∧ Paired credited speaks p' fs q := by
  cases h with
  | fcOn id hf hs h => exact ⟨some id, .fcOn id hf hs (.nil _), h⟩
  | opened id target hc h => exact ⟨none, .opened id target hc (.nil _), h⟩
  | plain id target hp hc h => exact ⟨p, .plain id target hp hc (.nil _), h⟩
  | other hf ho hc h => exact ⟨p, .other hf ho hc (.nil _), h⟩

/-- An announced stream whose Open does not come is the one at the end, and its FC_ON is not among
the frames; an Open that comes is the first of the two. -/
theorem Paired.announced {id : UInt32} (h : Paired credited speaks p fs q) (hp : p = some id) :
    (q = some id ∧ fs.find? (Frame.announces id) = none) ∨
      (credited id = some true ∧ (fs.find? (Frame.announces id)).any (Frame.opens id) = true) := by
  induction h with
  | nil => exact .inl ⟨hp, rfl⟩
  | fcOn => cases hp
  | opened k target hc h ih =>
    cases hp
    refine .inr ⟨hc, ?_⟩
    rw [List.find?_cons_of_pos (by simp [Frame.announces, Frame.opens])]
    simp [Frame.opens]
  | plain k target hk hc h ih =>
    have hne : k ≠ id := by
      rintro rfl
      exact hk hp
    rw [List.find?_cons_of_neg (by simp [Frame.announces, Frame.opens, Frame.fcOnFor, hne])]
    exact ih hp
  | @other f _ _ _ hf ho hc h ih =>
    have hopen : f.opens id = false := by
      cases f with
      | «open» k target => exact absurd rfl (ho k target)
      | _ => rfl
    rw [List.find?_cons_of_neg (by simp [Frame.announces, hopen, hf])]
    exact ih hp

end

namespace Engine
variable {cfg : EngineConfig} {s s' : Engine} {e : EngineEvent} {w : List Frame}

/-- Whether a stream of this engine runs with credit. -/
def creditOf (s : Engine) (i : UInt32) : Option Bool := (s.stream i).map Task.credited

/-- Tasks are only added, and keep their id and their credit. -/
def mark (t : Task) : UInt32 × Bool := (t.id, t.credited)

theorem creditOf_eq (s : Engine) (i : UInt32) :
    s.creditOf i = ((s.tasks.map mark).find? (fun m => m.1 = i)).map Prod.snd := by
  rw [creditOf, stream, List.find?_map, Option.map_map]
  rfl

theorem creditOf_mono {ms : List (UInt32 × Bool)} (h : s'.tasks.map mark = s.tasks.map mark ++ ms)
    (i : UInt32) (c : Bool) (hc : s.creditOf i = some c) : s'.creditOf i = some c := by
  rw [creditOf_eq] at hc ⊢
  rw [h, List.find?_append]
  cases hf : (s.tasks.map mark).find? (fun m => m.1 = i) with
  | none =>
    rw [hf] at hc
    cases hc
  | some m =>
    rw [hf] at hc
    exact hc

theorem marks_of_faces (h : s'.tasks.map Task.face = s.tasks.map Task.face) :
    s'.tasks.map mark = s.tasks.map mark := by
  have hm := congrArg (List.map (fun f : Face => (f.id, f.credited))) h
  rw [List.map_map, List.map_map] at hm
  exact hm

theorem marks_set {tid : ℕ} {t u : Task} (ht : s.tasks[tid]? = some t) (hu : mark u = mark t) :
    (s.tasks.set tid u).map mark = s.tasks.map mark := by
  rw [List.map_set, hu]
  apply List.ext_getElem?
  intro k
  rw [List.getElem?_set]
  split
  · rename_i hk
    subst hk
    rw [List.getElem?_map, ht]
    simp [(List.getElem?_eq_some_iff.mp ht).1]
  · rfl

/-- How the tasks of an engine grow. -/
inductive Grows (cfg : EngineConfig) (s : Engine) (e : EngineEvent) (s' : Engine) : Prop
  | same (h : s'.tasks.map mark = s.tasks.map mark)
      (hn : (s'.nextId = s.nextId ∨ s'.ended.isSome = true) ∧ s'.opening = s.opening)
  | announced (id : UInt32) (hi : cfg.initiates = true)
      (hid : freeId s.running (s.running.keys.length + 1) s.nextId = some id) (ho : s.opening = none)
      (hs : s'.tasks = s.tasks) (hn : s'.nextId = bump id) (ho' : s'.opening = some id)
  | connected (t : Task) (hi : cfg.initiates = true)
      (hid : (s.opening = none ∧ freeId s.running (s.running.keys.length + 1) s.nextId = some t.id ∧
        t.credited = false ∧ s'.nextId = bump t.id) ∨
        (s.opening = some t.id ∧ s'.nextId = s.nextId))
      (hs : s'.tasks = s.tasks ++ [t]) (ho' : s'.opening = none)
  | opened (t : Task) (target : String) (hi : cfg.initiates = false) (he : e = .frame (.open t.id target))
      (hfree : t.id ∉ s.running) (hc : t.credited = decide (t.id ∈ s.pendingFc))
      (hs : s'.tasks = s.tasks ++ [t])

theorem grows_touched (ht : s.Touched s') : Grows cfg s e s' := by
  have heq := ht.eq
  exact .same (marks_of_faces ht.faces) ⟨.inl (by rw [heq]), by rw [heq]⟩

theorem grows_step (hs : Shape cfg s e s' w) : Grows cfg s e s' := by
  cases hs with
  | touched e s' he ht => exact grows_touched ht
  | flush =>
    refine .same ?_ ⟨.inl ?_, ?_⟩
    · rw [sendAck_eq]
    · rw [sendAck_eq]
    · rw [sendAck_eq]
  | ignored f s' hf ht => exact grows_touched ht
  | hello payload window s' hfc hp hh => cases hh <;> exact .same rfl ⟨.inl rfl, rfl⟩
  | swindow payload bytes =>
    rcases onSWindow_cases bytes.toNat s with ⟨-, hq⟩ | ⟨win, -, -, hq⟩ | ⟨win, -, -, hq⟩ <;>
      rw [hq] <;> exact .same rfl ⟨.inl rfl, rfl⟩
  | data id payload s' hid ht =>
    have heq := ht.eq
    refine .same ((marks_of_faces ht.faces).trans ?_) ⟨.inl ?_, ?_⟩
    · rw [sendAck_eq]
    · rw [heq, sendAck_eq]
    · rw [heq, sendAck_eq]
  | close id reason s' ht =>
    have heq := ht.eq
    exact .same (marks_of_faces ht.faces) ⟨.inl (by rw [heq]), by rw [heq]⟩
  | «open» id target s' hi hnone ho =>
    cases ho with
    | inUse => exact .same rfl ⟨.inl rfl, rfl⟩
    | refused reason =>
      refine .same ?_ ⟨.inl ?_, ?_⟩
      · rw [ctrlSend_eq]
        rfl
      · rw [ctrlSend_eq]
        rfl
      · rw [ctrlSend_eq]
        rfl
    | accepted hn =>
      simp only [not_or] at hn
      exact .opened _ target hi rfl hn.2.2 rfl rfl
  | connection target s' hside hnone hc =>
    have hi : cfg.initiates = true := by rw [EngineConfig.initiates, hside]
    cases hc with
    | refused => exact .same rfl ⟨.inl rfl, rfl⟩
    | backlog => exact .same rfl ⟨.inr rfl, rfl⟩
    | announced id ha hp hid => exact .announced id hi hid hnone rfl rfl rfl
    | plain id ha hp hid => exact .connected _ hi (.inl ⟨hnone, hid, rfl, rfl⟩) rfl hnone
  | sendOpen target s' hside hc =>
    have hi : cfg.initiates = true := by rw [EngineConfig.initiates, hside]
    cases hc with
    | backlog => exact .same rfl ⟨.inl rfl, rfl⟩
    | sent id ho => exact .connected _ hi (.inr ⟨ho, rfl⟩) rfl rfl
  | pump tid pe s' hq =>
    obtain ⟨t, m, session, ht, hm, -, -, rfl⟩ := onPump_eq hq
    exact .same (marks_set ht (Prod.ext (Task.moves_id hm) (Task.moves_credited hm))) ⟨.inl rfl, rfl⟩
  | _ => exact .same rfl ⟨.inl rfl, rfl⟩

theorem Grows.marks (h : Grows cfg s e s') : ∃ ms, s'.tasks.map mark = s.tasks.map mark ++ ms := by
  cases h with
  | same h => exact ⟨[], by rw [h, List.append_nil]⟩
  | announced id hi hid ho hs => exact ⟨[], by rw [hs, List.append_nil]⟩
  | connected t hi hid hs => exact ⟨[mark t], by rw [hs, List.map_append]; rfl⟩
  | opened t target hi he hfree hc hs => exact ⟨[mark t], by rw [hs, List.map_append]; rfl⟩

/-- The ids of an initiate engine: the streams are numbered from 1 on, the announced one included. -/
structure Numbered (s : Engine) : Prop where
  ids : ∀ (k : ℕ) (m : UInt32 × Bool), (s.tasks.map mark)[k]? = some m → m.1.toNat = k + 1
  next : s.ended = none → s.opening = none → s.nextId.toNat = s.tasks.length + 1
  announced : ∀ id, s.ended = none → s.opening = some id → id.toNat = s.tasks.length + 1 ∧ s.nextId = bump id

theorem numbered_init (cfg : EngineConfig) : (init cfg).Numbered := by
  refine ⟨fun k m h => ?_, fun _ _ => rfl, fun id _ h => ?_⟩
  · cases h
  · cases h

theorem Numbered.le (h : s.Numbered) {t : Task} (ht : t ∈ s.tasks) : t.id.toNat ≤ s.tasks.length := by
  obtain ⟨k, hk⟩ := List.mem_iff_getElem?.mp ht
  have hid := h.ids k (mark t) (by rw [List.getElem?_map, hk]; rfl)
  have hlt := (List.getElem?_eq_some_iff.mp hk).1
  change t.id.toNat = k + 1 at hid
  omega

theorem Numbered.nodup (h : s.Numbered) : (s.tasks.map Task.id).Nodup := by
  rw [List.nodup_iff_injective_getElem]
  intro ⟨k, hk⟩ ⟨l, hl⟩ he
  simp only [List.getElem_map] at he
  rw [List.length_map] at hk hl
  have hids : ∀ (n : ℕ) (hn : n < s.tasks.length), s.tasks[n].id.toNat = n + 1 := by
    intro n hn
    exact h.ids n (mark s.tasks[n]) (by rw [List.getElem?_map, List.getElem?_eq_getElem hn]; rfl)
  have hk' := hids k hk
  have hl' := hids l hl
  rw [he] at hk'
  simp only [Fin.mk.injEq]
  omega

theorem Numbered.free_of (h : s.Numbered) {id : UInt32} (hid : id.toNat = s.tasks.length + 1) :
    s.stream id = none := by
  refine List.find?_eq_none.mpr fun t ht he => ?_
  have hle := h.le ht
  rw [of_decide_eq_true he] at hle
  omega

/-- While ids are not used up the next stream takes the next id, and no stream had it. -/
theorem Numbered.fresh (h : s.Numbered) (htab : s.Tables cfg) (hend : s.ended = none) (ho : s.opening = none)
    {id : UInt32} (hid : freeId s.running (s.running.keys.length + 1) s.nextId = some id) :
    id = s.nextId ∧ s.stream id = none := by
  have hnext := h.next hend ho
  have hrun : s.nextId ∉ s.running := by
    intro hm
    obtain ⟨tid, hr⟩ := Option.isSome_iff_exists.mp (AList.lookup_isSome.mpr hm)
    obtain ⟨t, ht, he, -⟩ := htab.runs _ tid hr
    have hle := h.le (List.mem_of_getElem? ht)
    rw [he] at hle
    omega
  simp only [freeId, if_neg hrun, Option.some.injEq] at hid
  exact ⟨hid.symm, hid ▸ h.free_of hnext⟩

/-- No stream had the id of the announced one. -/
theorem Numbered.unopened (h : s.Numbered) (hend : s.ended = none) {id : UInt32} (ho : s.opening = some id) :
    s.stream id = none := h.free_of (h.announced id hend ho).1

theorem toNat_bump {id : UInt32} (h : id.toNat + 1 < 2 ^ 32) : (bump id).toNat = id.toNat + 1 := by
  have hadd : (id + 1).toNat = id.toNat + 1 := by
    rw [UInt32.toNat_add]
    exact Nat.mod_eq_of_lt h
  have hle : ¬ (id + 1) ≤ 1 ∨ id + 1 = 1 := by
    by_cases h0 : id.toNat = 0
    · right
      apply UInt32.toNat_inj.mp
      rw [hadd, h0]
      rfl
    · left
      rw [UInt32.le_iff_toNat_le, hadd]
      simp
      omega
  unfold bump
  rcases hle with hle | he
  · rw [show max (id + 1) 1 = id + 1 from if_neg hle, hadd]
  · rw [he] at hadd ⊢
    exact hadd

/-- The streams stay numbered when the next one is added. -/
theorem Numbered.ids_append (h : s.Numbered) {t : Task} (hs : s'.tasks = s.tasks ++ [t])
    (hid : t.id.toNat = s.tasks.length + 1) (k : ℕ) (m : UInt32 × Bool)
    (hk : (s'.tasks.map mark)[k]? = some m) :
    m.1.toNat = k + 1 := by
  rw [hs, List.map_append, List.map_singleton] at hk
  rcases Nat.lt_or_ge k (s.tasks.map mark).length with hlt | hge
  · rw [List.getElem?_append_left hlt] at hk
    exact h.ids k m hk
  · rw [List.getElem?_append_right hge, List.getElem?_singleton] at hk
    split at hk
    · rename_i hk0
      cases hk
      rw [List.length_map] at hge hk0
      change t.id.toNat = k + 1
      omega
    · cases hk

theorem Numbered.step (h : s.Numbered) (htab : s.Tables cfg) (hend : s.ended = none)
    (hg : Grows cfg s e s') (hi : cfg.initiates = true) (hlen : s'.tasks.length < 2 ^ 32 - 1) :
    s'.Numbered := by
  cases hg with
  | same hm hn =>
    have hl : s'.tasks.length = s.tasks.length := by simpa using congrArg List.length hm
    have hnext : s'.ended = none → s'.nextId = s.nextId := by
      intro hend'
      refine hn.1.resolve_right fun he => ?_
      rw [hend'] at he
      cases he
    refine ⟨fun k m hk => h.ids k m (hm ▸ hk), fun hend' ho => ?_, fun id hend' ho => ?_⟩
    · rw [hnext hend', hl]
      exact h.next hend (hn.2 ▸ ho)
    · rw [hnext hend', hl]
      exact h.announced id hend (hn.2 ▸ ho)
  | announced id hi' hid ho hs hn ho' =>
    obtain ⟨rfl, -⟩ := h.fresh htab hend ho hid
    refine ⟨fun k m hk => h.ids k m (hs ▸ hk), fun _ hnone => ?_, fun k _ hk => ?_⟩
    · rw [ho'] at hnone
      cases hnone
    · rw [ho', Option.some.injEq] at hk
      rw [← hk, hs]
      exact ⟨h.next hend ho, hn⟩
  | connected t hi' hid hs ho' =>
    have hnum : t.id.toNat = s.tasks.length + 1 ∧ s'.nextId = bump t.id := by
      rcases hid with ⟨ho, hfree, -, hn⟩ | ⟨ho, hn⟩
      · obtain ⟨heq, -⟩ := h.fresh htab hend ho hfree
        rw [hn, heq]
        exact ⟨h.next hend ho, rfl⟩
      · obtain ⟨h1, h2⟩ := h.announced t.id hend ho
        exact ⟨h1, hn.trans h2⟩
    have hl : s'.tasks.length = s.tasks.length + 1 := by rw [hs, List.length_append, List.length_singleton]
    refine ⟨h.ids_append hs hnum.1, fun _ _ => ?_, fun k _ hk => ?_⟩
    · rw [hnum.2, toNat_bump (by omega)]
      omega
    · rw [ho'] at hk
      cases hk
  | opened t target hi' =>
    rw [hi] at hi'
    cases hi'

/-- What a step does to the announced streams. -/
theorem pendingFc_step (hs : Shape cfg s e s' w) :
    s'.pendingFc = s.pendingFc ∨
    (∃ f id, e = .frame f ∧ ((∃ reason, f = .close id reason) ∨ ∃ target, f = .open id target) ∧
      s'.pendingFc = s.pendingFc.erase id) ∨
    (∃ f id, e = .frame f ∧ f.fcOnFor = some id ∧ s'.pendingFc = insert id s.pendingFc) := by
  cases hs with
  | touched e s' he ht => exact .inl (by rw [ht.eq])
  | flush => exact .inl (by rw [sendAck_eq])
  | ignored f s' hf ht => exact .inl (by rw [ht.eq])
  | hello payload window s' hfc hp hh => cases hh <;> exact .inl rfl
  | swindow payload bytes =>
    rcases onSWindow_cases bytes.toNat s with ⟨-, hq⟩ | ⟨win, -, -, hq⟩ | ⟨win, -, -, hq⟩ <;>
      rw [hq] <;> exact .inl rfl
  | fcOn payload id hfc hp => exact .inr (.inr ⟨_, id, rfl, by simp [Frame.fcOnFor, hp], rfl⟩)
  | data id payload s' hid ht =>
    left
    rw [ht.eq, sendAck_eq]
  | close id reason s' ht => exact .inr (.inl ⟨_, id, rfl, .inl ⟨reason, rfl⟩, by rw [ht.eq]⟩)
  | «open» id target s' hi hn ho =>
    cases ho with
    | inUse => exact .inl rfl
    | refused reason =>
      refine .inr (.inl ⟨_, id, rfl, .inr ⟨target, rfl⟩, ?_⟩)
      rw [ctrlSend_eq]
      rfl
    | accepted => exact .inr (.inl ⟨_, id, rfl, .inr ⟨target, rfl⟩, rfl⟩)
  | connection target s' hside hn hc => cases hc <;> exact .inl rfl
  | sendOpen target s' hside hc => cases hc <;> exact .inl rfl
  | pump tid pe s' hq =>
    obtain ⟨t, m, session, -, -, -, -, rfl⟩ := onPump_eq hq
    exact .inl rfl
  | _ => exact .inl rfl

/-- The Open uses up the announcement of its stream. -/
theorem pendingFc_open {id : UInt32} {target : String} (hs : Shape cfg s (.frame (.open id target)) s' w)
    (hi : cfg.initiates = false) (hend : s'.ended = none) : s'.pendingFc = s.pendingFc.erase id := by
  generalize he : EngineEvent.frame (.open id target) = e at hs
  cases hs with
  | touched e s' hne ht => exact absurd he.symm (hne _)
  | flags e accepting helloDeadline stopping hne => exact absurd he.symm (hne _)
  | gone e why hne => exact absurd he.symm (hne _)
  | ignored f s' hf ht =>
    cases he
    cases hf
  | openIgnored id' target' hi' =>
    rw [hi] at hi'
    cases hi'
  | «open» id' target' s' hi' hn ho =>
    cases he
    cases ho with
    | inUse => cases hend
    | refused reason =>
      rw [ctrlSend_eq]
      rfl
    | accepted => rfl
  | _ => cases he

/-- An FC_ON below the bound is noted and nothing else. -/
theorem pendingFc_fcOn {f : Frame} {id : UInt32} (hs : Shape cfg s (.frame f) s' w) (hf : f.fcOnFor = some id)
    (hfc : cfg.fcEnabled = true) (hc : s.pendingFc.card < maxPendingFc) :
    s' = { s with pendingFc := insert id s.pendingFc } := by
  obtain ⟨payload, rfl, hp⟩ : ∃ payload, f = .data controlId payload ∧
    parseControl payload = some (.fcOn id) := by
    cases f with
    | data k payload =>
      simp only [Frame.fcOnFor] at hf
      split at hf
      · rename_i hk
        split at hf
        · rename_i hp
          cases hf
          exact ⟨payload, by rw [hk], hp⟩
        · cases hf
      · cases hf
    | _ => cases hf
  generalize he : EngineEvent.frame (.data controlId payload) = e at hs
  cases hs with
  | touched e s' hne ht => exact absurd he.symm (hne _)
  | flags e accepting helloDeadline stopping hne => exact absurd he.symm (hne _)
  | gone e why hne => exact absurd he.symm (hne _)
  | ignored f s' hf' ht hc' =>
    cases he
    rcases hc' hfc with hc' | ⟨k, bytes, hc'⟩ <;> simp [Frame.payload, hp] at hc'
  | hello payload' window s' hfc' hp' =>
    cases he
    rw [hp] at hp'
    cases hp'
  | swindow payload' bytes hfc' hp' =>
    cases he
    rw [hp] at hp'
    cases hp'
  | flood payload' id' hfc' hp' hc' => exact absurd hc' (Nat.not_le.mpr hc)
  | fcOn payload' id' hfc' hp' =>
    cases he
    rw [hp] at hp'
    cases hp'
    rfl
  | data id' payload' s' hid =>
    cases he
    exact absurd rfl hid
  | _ => cases he

theorem fcOnFor_moves {t : Task} {m : PumpMove} {orphan : Bool} (hid : t.id ≠ controlId)
    (hm : t.Moves orphan m) : ∀ f ∈ m.frames, f.fcOnFor = none := by
  intro f hf
  rcases Task.moves_frames hm f hf with ⟨target, rfl⟩ | ⟨reason, rfl⟩ | ⟨chunk, rfl⟩ | ⟨bytes, rfl⟩
  · rfl
  · rfl
  · exact if_neg hid
  · exact fcOnFor_window _ _

/-- No pump announces a stream. -/
theorem fcOnFor_out (htab : s.Tables cfg) (hq : QueueStep cfg s s' w) (h : ∀ f ∈ s.out, f.fcOnFor = none) :
    ∀ f ∈ s'.out, f.fcOnFor = none := by
  cases hq with
  | ctrlNone hc hs =>
    rw [hs]
    exact h
  | ctrlSome f ctrl hc hs =>
    rw [hs]
    exact h
  | outNone ho hs =>
    rw [hs]
    exact h
  | outSome f out hc ho hs =>
    rw [hs]
    exact fun g hg => h g (ho ▸ List.mem_cons_of_mem f hg)
  | adds cs os ha hctrl hout =>
    rw [hout]
    intro f hf
    rcases List.mem_append.mp hf with hf | hf
    · exact h f hf
    · cases ha with
      | pumped tid t m orphan ht hm => exact fcOnFor_moves (htab.id_ne ht (Task.moves_running hm)) hm f hf
      | _ => cases hf

end Engine

theorem Task.moves_unopened {t : Task} {m : PumpMove} {orphan : Bool} (hm : t.Moves orphan m)
    (h : m.task.unopened = true) : t.unopened = true := by
  have ho := Task.moves_opens (i := 0) hm
  rw [h, if_pos rfl] at ho
  by_contra hn
  rw [if_neg hn] at ho
  omega

theorem Task.moves_open_mem {t : Task} {m : PumpMove} {orphan : Bool} {i : UInt32} {target : String}
    (hm : t.Moves orphan m) (h : Frame.open i target ∈ m.frames) : t.unopened = true := by
  have ho := Task.moves_opens (i := i) hm
  have hpos : 0 < openCount i m.frames := List.countP_pos_iff.mpr ⟨_, h, by simp [Frame.opens]⟩
  by_contra hn
  rw [if_neg hn] at ho
  omega

/-- Only a stream without credit is opened by its task. -/
structure View.Plain (i : UInt32) (v : View) : Prop where
  task : ∀ t, v.task = some t → t.unopened = true → t.credited = false
  out : ∀ target, Frame.open i target ∈ v.out → ∃ t, v.task = some t ∧ t.credited = false

theorem View.Plain.step {order initiates : Bool} {i : UInt32} {v v' : View} {inp w : List Frame}
    (h : v.Plain i) (hs : ViewStep order initiates i v inp v' w) : v'.Plain i := by
  -- a step that keeps the task's phase and credit, and the pumps' queue
  have hkeep : ∀ t t' : Task, v.task = some t → v'.task = some t' → t'.phase = t.phase →
      t'.credited = t.credited → v'.out = v.out → v'.Plain i := by
    intro t t' ht ht' hp hc ho
    constructor
    · intro u hu huo
      rw [ht', Option.some.injEq] at hu
      subst hu
      rw [Task.unopened_congr hp] at huo
      rw [hc]
      exact h.task t ht huo
    · intro target hm
      rw [ho] at hm
      obtain ⟨u, hu, huc⟩ := h.out target hm
      rw [ht, Option.some.injEq] at hu
      subst hu
      exact ⟨t', ht', hc.trans huc⟩
  have hfree : v.task = none → ∀ target, Frame.open i target ∉ v.out := by
    intro hn target hm
    obtain ⟨t, ht, -⟩ := h.out target hm
    rw [hn] at ht
    cases ht
  cases hs with
  | connected session target hi hn =>
    refine ⟨fun t ht hu => ?_, fun target' hm => absurd hm (hfree hn target')⟩
    cases ht
    cases hu
  | connectedPlain target hi hn =>
    refine ⟨fun t ht _ => ?_, fun target' hm => absurd hm (hfree hn target')⟩
    cases ht
    rfl
  | opened c session target hi hn =>
    refine ⟨fun t ht hu => ?_, fun target' hm => absurd hm (hfree hn target')⟩
    cases ht
    cases hu
  | pump t m orphan ht hm =>
    have hc := Task.moves_credited hm
    constructor
    · intro u hu huo
      cases hu
      rw [hc]
      exact h.task t ht (Task.moves_unopened hm huo)
    · intro target hmem
      refine ⟨m.task, rfl, ?_⟩
      rw [hc]
      rcases List.mem_append.mp hmem with hmem | hmem
      · obtain ⟨u, hu, huc⟩ := h.out target hmem
        rw [ht, Option.some.injEq] at hu
        rw [hu]
        exact huc
      · exact h.task t ht (Task.moves_open_mem hm hmem)
  | delivered v' t payload ht he hw hx hv =>
    obtain ⟨t', ht', hp, hc, -, ho⟩ := handed_task hv
    exact hkeep t t' ht ht' (hp.trans (Engine.countPending_phase payload t))
      (hc.trans (Engine.countPending_credited payload t)) ho
  | closed v' t ht he hw hv =>
    obtain ⟨t', ht', hp, hc, -, ho⟩ := handed_task hv
    exact hkeep t t' ht ht' hp hc ho
  | aborted v' t reason ht he hw hv =>
    obtain ⟨t', ht', hp, hc, -, ho⟩ := handed_task hv
    exact hkeep t t' ht ht' hp hc ho
  | credit t f bytes hf ht => exact hkeep t _ ht rfl rfl rfl rfl
  | unblocked t msg ht => exact hkeep t _ ht rfl (Engine.pushIn_phase msg t) (Engine.pushIn_credited msg t) rfl
  | joined t t' ht hp ht' =>
    have hu : t'.unopened = false ∧ t'.credited = t.credited := by
      rcases ht' with rfl | rfl <;> exact ⟨rfl, rfl⟩
    constructor
    · intro u hu' huo
      cases hu'
      rw [hu.1] at huo
      cases huo
    · intro target hm
      obtain ⟨u, hu', huc⟩ := h.out target hm
      rw [ht, Option.some.injEq] at hu'
      subst hu'
      exact ⟨t', rfl, hu.2.trans huc⟩
  | pollOut f out hc => exact ⟨h.task, fun target hm => h.out target (hc ▸ List.mem_cons_of_mem f hm)⟩
  | _ => exact { h with }

/-- A stream without a task has nothing in the pumps' queue. -/
def View.Silent (v : View) : Prop := v.task = none → v.out = []

theorem View.Silent.step {order initiates : Bool} {i : UInt32} {v v' : View} {inp w : List Frame}
    (h : v.Silent) (hs : ViewStep order initiates i v inp v' w) : v'.Silent := by
  intro hn
  have hsome : ∀ t, v.task = some t → False := by
    intro t ht
    obtain ⟨t', ht', -⟩ := task_step hs ht
    rw [hn] at ht'
    cases ht'
  have hnone : v.task = none := Option.eq_none_iff_forall_ne_some.mpr hsome
  have hout := h hnone
  cases hs with
  | pump t m orphan ht => exact (hsome t ht).elim
  | delivered v' t payload ht => exact (hsome t ht).elim
  | closed v' t ht => exact (hsome t ht).elim
  | aborted v' t reason ht => exact (hsome t ht).elim
  | pollOut f out hc =>
    rw [hout] at hc
    cases hc
  | _ => exact hout

/-- The announced stream as the accept engine keeps it. -/
def pendingOf : Option UInt32 → Finset UInt32
  | none => ∅
  | some i => {i}

theorem notMem_pendingOf {p : Option UInt32} {id : UInt32} (h : p ≠ some id) : id ∉ pendingOf p := by
  cases p with
  | none => exact Finset.notMem_empty id
  | some k =>
    rw [pendingOf, Finset.mem_singleton]
    rintro rfl
    exact h rfl

/-- A writer that takes a Close from the pumps' queue does not put it between the FC_ON and the Open
of its stream. -/
def Engine.uncut (s : Engine) : EngineEvent → Bool
  | .pollOut =>
    match s.out with
    | f :: _ => !f.cutsIn s.ctrl
    | [] => true
  | _ => true

def Pair.uncut (s : Pair) : PairEvent → Bool
  | .a e => s.a.uncut e
  | .b e => s.b.uncut e

/-- The frames on their way to the accept engine and in the control queue behind them, from the
stream the accept engine has announced on to the one whose Open is still to be queued. -/
def Announced (a b : Engine) (ab : List Frame) : Prop :=
  ∃ p q, Paired a.creditOf a.peerSpeaksFc p ab q ∧
    (a.ended = none → Paired a.creditOf a.peerSpeaksFc q a.ctrl a.opening) ∧
    (b.ended = none → b.pendingFc = pendingOf p)

section
variable {cfg peer : EngineConfig} {a a' b b' : Engine} {ab ab' w : List Frame} {e : EngineEvent}

theorem announced_init (cfg peer : EngineConfig) : Announced (.init cfg) (.init peer) [] := by
  refine ⟨none, none, .nil _, fun _ => ?_, fun _ => rfl⟩
  simp only [Engine.init]
  split
  · exact .other (fcOnFor_hello _) (fun id target h => by cases h) (fun id reason h => by cases h) (.nil _)
  · exact .nil _

/-- A frame of the pumps' queue that the writer takes goes between no announcement and its Open. -/
theorem paired_out {f : Frame} {out : List Frame} {q : Option UInt32} (hout : a.out = f :: out)
    (hctrl : Paired a.creditOf a.peerSpeaksFc q a.ctrl a.opening) (hf : f.fcOnFor = none)
    (hplain : ∀ i, (a.view i).Plain i) (hsilent : ∀ i, (a.view i).Silent)
    (hfree : ∀ id, a.opening = some id → a.stream id = none) (hcut : f.cutsIn a.ctrl = false) :
    Paired a.creditOf a.peerSpeaksFc q [f] q := by
  have hmem : f ∈ a.out := hout ▸ List.mem_cons_self
  -- a frame of the stream that is announced belongs to a task, so the Open is queued
  have hqueued : ∀ id, q = some id → f.about id = true →
      a.creditOf id = some true ∧ (a.ctrl.find? (Frame.announces id)).any (Frame.opens id) = true := by
    intro id hq hab
    rcases hctrl.announced hq with ⟨ho, -⟩ | hfound
    · have hnil := hsilent id (hfree id ho)
      have hin : f ∈ (a.view id).out := List.mem_filter.mpr ⟨hmem, hab⟩
      rw [hnil] at hin
      cases hin
    · exact hfound
  cases f with
  | «open» id target =>
    obtain ⟨t, ht, htc⟩ := (hplain id).out target (List.mem_filter.mpr ⟨hmem, by simp [Frame.about]⟩)
    have hcredit : a.creditOf id = some false := by
      rw [Engine.creditOf, show a.stream id = some t from ht, Option.map_some, htc]
    refine .plain id target (fun hq => ?_) hcredit (.nil _)
    rw [(hqueued id hq (by simp [Frame.about])).1] at hcredit
    cases hcredit
  | data id payload => exact .other hf (fun _ _ h => by cases h) (fun _ _ _ h => by cases h) (.nil _)
  | close id reason =>
    refine .other hf (fun _ _ h => by cases h) (fun k why hq he => ?_) (.nil _)
    cases he
    have hfound := (hqueued id hq (by simp [Frame.about])).2
    rw [Frame.cutsIn, hfound] at hcut
    cases hcut

theorem Announced.sends (h : Announced a b ab) (hend : a.ended = none) (hq : Engine.QueueStep cfg a a' w)
    (hmono : ∀ i c, a.creditOf i = some c → a'.creditOf i = some c)
    (hspeaks : a.peerSpeaksFc = true → a'.peerSpeaksFc = true)
    (hout : ∀ f ∈ a.out, f.fcOnFor = none) (hplain : ∀ i, (a.view i).Plain i)
    (hsilent : ∀ i, (a.view i).Silent)
    (hfree : ∀ id, a.opening = some id → a.stream id = none)
    (hcut : ∀ f out, a.out = f :: out → w = [f] → a'.ctrl = a.ctrl → f.cutsIn a.ctrl = false) :
    Announced a' b (ab ++ w) := by
  obtain ⟨p, q, hab, hctrl, hb⟩ := h
  have hctrl := hctrl hend
  have hab' := hab.mono hmono hspeaks
  have hctrl' := hctrl.mono hmono hspeaks
  cases hq with
  | ctrlNone hc hs =>
    subst hs
    exact ⟨p, q, by rw [List.append_nil]; exact hab, fun _ => hctrl, hb⟩
  | ctrlSome f ctrl hc hs =>
    subst hs
    rw [hc] at hctrl
    obtain ⟨q', hf, hrest⟩ := hctrl.single
    exact ⟨p, q', hab.append hf, fun _ => hrest, hb⟩
  | outNone ho hs =>
    subst hs
    exact ⟨p, q, by rw [List.append_nil]; exact hab, fun _ => hctrl, hb⟩
  | outSome f out hc ho hs =>
    have hf := paired_out ho hctrl (hout f (ho ▸ List.mem_cons_self)) hplain hsilent hfree
      (hcut f out ho rfl (by rw [hs]))
    subst hs
    exact ⟨p, q, hab.append hf, fun _ => hctrl, hb⟩
  | adds cs os ha hc ho he =>
    refine ⟨p, q, by rw [List.append_nil]; exact hab', fun _ => ?_, hb⟩
    rw [hc]
    refine hctrl'.append ?_
    cases ha with
    | nothing hopen =>
      rw [hopen]
      exact .nil _
    | ack bytes hopen =>
      rw [hopen]
      exact .other (fcOnFor_swindow _) (fun _ _ h => by cases h) (fun _ _ _ h => by cases h) (.nil _)
    | refusal id reason hopen hopen' =>
      rw [hopen, hopen']
      exact .other rfl (fun _ _ h => by cases h) (fun _ _ h => by cases h) (.nil _)
    | announced id hi hp hopen hopen' =>
      rw [hopen, hopen']
      exact .fcOn id (fcOnFor_fcOn id) (hspeaks hp) (.nil _)
    | opened id target hi hopen hopen' ht =>
      rw [hopen, hopen']
      have hc' : a'.creditOf id = some true := by
        have hnone : a.tasks.find? (fun t => t.id = id) = none := hfree id hopen
        rw [Engine.creditOf, Engine.stream, ht, List.find?_append, hnone]
        simp [Task.new]
      exact .opened id target hc' (.nil _)
    | pumped tid t m orphan ht hm hopen =>
      rw [hopen]
      exact .nil _

theorem Announced.receives (h : Announced a b ab) (hend : b.ended = none) (hi : peer.initiates = false)
    (hs : Engine.Shape peer b e b' w) (hw : ab = e.input ++ ab')
    (hfc : a.peerSpeaksFc = true → peer.fcEnabled = true) : Announced a b' ab' := by
  obtain ⟨p, q, hab, hctrl, hb⟩ := h
  have hb := hb hend
  rcases input_cases e with he | ⟨f, rfl, he⟩
  · rw [he, List.nil_append] at hw
    subst hw
    refine ⟨p, q, hab, hctrl, fun _ => ?_⟩
    rcases Engine.pendingFc_step hs with hp | ⟨f, id, rfl, -⟩ | ⟨f, id, rfl, -⟩
    · rw [hp, hb]
    · cases he
    · cases he
  · rw [he, List.singleton_append] at hw
    subst hw
    cases hab with
    | fcOn id hf hsp hrest =>
      have hcard : b.pendingFc.card < maxPendingFc := by
        rw [hb]
        exact Nat.zero_lt_succ _
      have hset := Engine.pendingFc_fcOn hs hf (hfc hsp) hcard
      refine ⟨some id, q, hrest, hctrl, fun _ => ?_⟩
      rw [hset, hb]
      rfl
    | opened id target hc hrest =>
      refine ⟨none, q, hrest, hctrl, fun hend' => ?_⟩
      rw [Engine.pendingFc_open hs hi hend', hb]
      exact Finset.erase_singleton id
    | plain id target hp hc hrest =>
      refine ⟨p, q, hrest, hctrl, fun hend' => ?_⟩
      rw [Engine.pendingFc_open hs hi hend', hb]
      exact Finset.erase_eq_of_notMem (notMem_pendingOf hp)
    | other hf ho hc hrest =>
      refine ⟨p, q, hrest, hctrl, fun hend' => ?_⟩
      -- a Close of another stream leaves the announced one alone
      rcases Engine.pendingFc_step hs with h | ⟨g, id, hg, hg', h⟩ | ⟨g, id, hg, hgf, -⟩
      · rw [h, hb]
      · cases hg
        rcases hg' with ⟨reason, rfl⟩ | ⟨target, rfl⟩
        · rw [h, hb]
          exact Finset.erase_eq_of_notMem (notMem_pendingOf fun hp => hc id reason hp rfl)
        · exact absurd rfl (ho id target)
      · cases hg
        rw [hf] at hgf
        cases hgf

/-- The accept engine never has more announced than one stream. -/
theorem Announced.card (h : Announced a b ab) (hend : b.ended = none) : b.pendingFc.card < maxPendingFc := by
  obtain ⟨p, q, -, -, hb⟩ := h
  rw [hb hend]
  cases p with
  | none => exact Nat.zero_lt_succ _
  | some i =>
    simp only [pendingOf, Finset.card_singleton, maxPendingFc]
    omega

/-- A stream is taken up with credit when its own engine runs it with credit. -/
theorem Announced.credit {id : UInt32} {target : String} {rest : List Frame}
    (h : Announced a b (.open id target :: rest)) (hend : b.ended = none) :
    a.creditOf id = some (decide (id ∈ b.pendingFc)) := by
  obtain ⟨p, q, hab, -, hb⟩ := h
  rw [hb hend]
  cases hab with
  | fcOn id hf => cases hf
  | opened id target hc => simpa [pendingOf] using hc
  | plain id target hp hc =>
    rw [decide_eq_false (notMem_pendingOf hp)]
    exact hc
  | other hf ho => exact absurd rfl (ho id target)

end

end CtAgent.Forward
