import CtAgent.Admission.Ladder
import CtAgent.Lib.NetAddr
import CtAgent.Lib.Run

/-! The memory of the join addresses: calls that refresh a name, lookups on threads of their own, and
reads, in any interleaving of their locked steps. -/
namespace CtAgent.Channel.JoinAddr
open CtAgent.Lib
open CtAgent.Admission (ChannelDialKind)

structure ChannelDialRung where
  endpoint : SocketAddr
  kind : ChannelDialKind

/-- The entries of `JOIN_LAST_GOOD`. -/
abbrev LastGood := List (String × SocketAddr)

def joinAddrKnown (lastGood : LastGood) (raw : String) (start : SocketAddr) : SocketAddr :=
  match SocketAddr.parse raw with
  | some sa => sa
  | none => (lastGood.lookup raw).getD start

/-- Over the first entry of the name, or as a new one. -/
def writeEntry (raw : String) (now : SocketAddr) : LastGood → LastGood
  | [] => [(raw, now)]
  | e :: es => if e.1 = raw then (e.1, now) :: es else e :: writeEntry raw now es

def joinAddrRemember (lastGood : LastGood) (raw : String) (start now : SocketAddr) : LastGood :=
  let last := (lastGood.lookup raw).getD start
  if now = last then lastGood else writeEntry raw now lastGood

/-- The name behind a rung. -/
def rungName (directRaw : String) (frontDoorRaw : Option String) (kind : ChannelDialKind) : Option String :=
  if kind.isFrontDoor then frontDoorRaw else some directRaw

/-- One rung of `ladder_known`. -/
def rungKnown (lastGood : LastGood) (directRaw : String) (frontDoorRaw : Option String)
    (rung : ChannelDialRung) :
    ChannelDialRung :=
  match rungName directRaw frontDoorRaw rung.kind with
  | some raw => ⟨joinAddrKnown lastGood raw rung.endpoint, rung.kind⟩
  | none => rung

/-- `answered`: `resolve` has returned and the answer is not remembered yet; `leaving`: only the claim on
the name is still held. -/
inductive LookupPhase where
  | queued | resolving
  | answered (now : SocketAddr)
  | leaving
  deriving DecidableEq

/-- The closure on the blocking thread, with the `start` of the call that spawned it. -/
structure Lookup where
  name : String
  start : SocketAddr
  phase : LookupPhase
  deriving DecidableEq

/-- Where a `join_addr_refresh` stands. -/
inductive CallPhase where
  | knowing
  | claiming (last : SocketAddr)
  | waiting
  | waited
  | done (addr : SocketAddr)
  deriving DecidableEq

structure RefreshCall where
  raw : String
  start : SocketAddr
  phase : CallPhase
  deriving DecidableEq

inductive Entry where
  | lookedUp (name : String)
  | answered (name : String) (start now : SocketAddr)
  | read (name : String) (start got : SocketAddr)
  deriving DecidableEq

structure State where
  lastGood : LastGood
  inFlight : List String
  lookups : List Lookup
  calls : List RefreshCall
  log : List Entry
  deriving DecidableEq

def State.start : State := ⟨[], [], [], [], []⟩

/-- What happens next: a call begins, takes its next step, or is done waiting (its lookup ended, or the
time is over); a lookup begins, answers, fails or panics, is dropped unrun, remembers its answer, or
releases its name; some other caller reads a name, or a rung of a ladder. -/
inductive Event where
  | refresh (raw : String) (start : SocketAddr)
  | call (i : ℕ)
  | waitOver (i : ℕ)
  | run (k : ℕ)
  | answer (k : ℕ) (now : SocketAddr)
  | fail (k : ℕ)
  | dropUnrun (k : ℕ)
  | remember (k : ℕ)
  | release (k : ℕ)
  | known (raw : String) (start : SocketAddr)
  | rung (directRaw : String) (frontDoorRaw : Option String) (rung : ChannelDialRung)

namespace State

def setCall (s : State) (i : ℕ) (c : RefreshCall) (phase : CallPhase) : State :=
  { s with calls := s.calls.set i { c with phase := phase } }

def setLookup (s : State) (k : ℕ) (l : Lookup) (phase : LookupPhase) : State :=
  { s with lookups := s.lookups.set k { l with phase := phase } }

def note (s : State) (e : Entry) : State := { s with log := s.log ++ [e] }

/-- A `join_addr_known`, noted. -/
def read (s : State) (raw : String) (start : SocketAddr) : State :=
  s.note (.read raw start (joinAddrKnown s.lastGood raw start))

/-- A lookup with the claim on its name. -/
def spawnLookup (s : State) (raw : String) (start : SocketAddr) : State :=
  { s with inFlight := s.inFlight ++ [raw], lookups := s.lookups ++ [⟨raw, start, .queued⟩] }

/-- `JoinInFlight::claim`, and the lookup it goes into. -/
def claim (s : State) (i : ℕ) (c : RefreshCall) (last : SocketAddr) : State :=
  if s.inFlight.contains c.raw then s.setCall i c (.done last)
  else (s.spawnLookup c.raw c.start).setCall i c .waiting

def beginRefresh (s : State) (raw : String) (start : SocketAddr) : State :=
  match SocketAddr.parse raw with
  | some sa => { s with calls := s.calls ++ [⟨raw, start, .done sa⟩] }
  | none => { s with calls := s.calls ++ [⟨raw, start, .knowing⟩] }

/-- A rung of a ladder, looked up; one without a name is left alone. -/
def readRung (s : State) (directRaw : String) (frontDoorRaw : Option String)
    (rung : ChannelDialRung) : State :=
  match rungName directRaw frontDoorRaw rung.kind with
  | some raw => s.note (.read raw rung.endpoint (rungKnown s.lastGood directRaw frontDoorRaw rung).endpoint)
  | none => s

def releaseName (s : State) (k : ℕ) (l : Lookup) : State :=
  { s with inFlight := s.inFlight.filter (· != l.name), lookups := s.lookups.eraseIdx k }

def stepCall (s : State) (i : ℕ) (c : RefreshCall) : Option State :=
  match c.phase with
  | .knowing => some ((s.read c.raw c.start).setCall i c (.claiming (joinAddrKnown s.lastGood c.raw c.start)))
  | .claiming last => some (s.claim i c last)
  | .waited => some ((s.read c.raw c.start).setCall i c (.done (joinAddrKnown s.lastGood c.raw c.start)))
  | .waiting | .done _ => none

def step (s : State) : Event → Option State
  | .refresh raw start => some (s.beginRefresh raw start)
  | .call i => s.calls[i]?.bind (s.stepCall i)
  | .waitOver i => s.calls[i]?.bind
      (fun c => if c.phase = .waiting then some (s.setCall i c .waited) else none)
  | .run k => s.lookups[k]?.bind (fun l =>
      if l.phase = .queued then some ((s.setLookup k l .resolving).note (.lookedUp l.name)) else none)
  | .answer k now => s.lookups[k]?.bind (fun l =>
      if l.phase = .resolving then some (s.setLookup k l (.answered now)) else none)
  | .fail k => s.lookups[k]?.bind (fun l => if l.phase = .resolving
      then some (s.setLookup k l .leaving) else none)
  | .dropUnrun k => s.lookups[k]?.bind
      (fun l => if l.phase = .queued then some (s.setLookup k l .leaving) else none)
  | .remember k => s.lookups[k]?.bind (fun l =>
      match l.phase with
      | .answered now =>
        some ({ s with lastGood := joinAddrRemember s.lastGood l.name l.start now }.setLookup k l .leaving
          |>.note (.answered l.name l.start now))
      | _ => none)
  | .release k => s.lookups[k]?.bind (fun l =>
      if l.phase = .leaving then some (s.releaseName k l) else none)
  | .known raw start => some (s.read raw start)
  | .rung directRaw frontDoorRaw rung => some (s.readRung directRaw frontDoorRaw rung)

end State

/-- The latest answer of a name. -/
def latestAnswer (name : String) (log : List Entry) : Option SocketAddr :=
  log.foldl (fun latest e =>
    match e with
    | .answered n _ now => if n = name then some now else latest
    | _ => latest) none

/-- Some answer of the name was another address than the `start` of its own call. -/
def Changed (name : String) (log : List Entry) : Prop :=
  ∃ start now, .answered name start now ∈ log ∧ now ≠ start

section
variable {name : String} {log : List Entry} {e : Entry}

theorem latestAnswer_answered (n : String) (start now : SocketAddr) :
    latestAnswer name (log ++ [.answered n start now]) = if n = name then some now
      else latestAnswer name log := by
  unfold latestAnswer
  rw [List.foldl_append]
  rfl

/-- Only answers count. -/
theorem latestAnswer_other (he : ∀ n start now, e ≠ .answered n start now) :
    latestAnswer name (log ++ [e]) = latestAnswer name log := by
  unfold latestAnswer
  rw [List.foldl_append]
  cases e with
  | lookedUp n => rfl
  | answered n start now => exact absurd rfl (he n start now)
  | read n start got => rfl

theorem changed_other (he : ∀ n start now, e ≠ .answered n start now) : Changed name (log ++ [e]) ↔
    Changed name log := by
  constructor
  · intro h
    obtain ⟨start, now, hmem, hne⟩ := h
    rcases List.mem_append.mp hmem with hmem | hmem
    · exact ⟨start, now, hmem, hne⟩
    · exact absurd (List.mem_singleton.mp hmem).symm (he name start now)
  · intro h
    obtain ⟨start, now, hmem, hne⟩ := h
    exact ⟨start, now, List.mem_append_left _ hmem, hne⟩

end

section
variable {raw name : String} {lastGood : LastGood} {now : SocketAddr}

theorem lookup_cons (h : String) (a : SocketAddr) (es : LastGood) :
    ((h, a) :: es).lookup name = if h = name then some a else es.lookup name := by
  rw [List.lookup_cons]
  by_cases heq : h = name
  · rw [if_pos heq, heq, beq_self_eq_true]
  · have hne : (name == h) = false := beq_eq_false_iff_ne.mpr (fun hn => heq hn.symm)
    rw [if_neg heq, hne]

theorem lookup_writeEntry : (writeEntry raw now lastGood).lookup name = if raw = name then some now
    else lastGood.lookup name := by
  induction lastGood with
  | nil => exact lookup_cons raw now []
  | cons e es ih =>
    obtain ⟨h, a⟩ := e
    unfold writeEntry
    by_cases hhead : h = raw
    · rw [if_pos hhead, lookup_cons, lookup_cons, hhead]
      split
      · rfl
      · rfl
    · rw [if_neg hhead, lookup_cons, lookup_cons, ih]
      by_cases hname : h = name
      · have hother : ¬ raw = name := fun heq => hhead (hname.trans heq.symm)
        rw [if_pos hname, if_neg hother, if_pos hname]
      · rw [if_neg hname, if_neg hname]

theorem rungKnown_endpoint {directRaw : String} {frontDoorRaw : Option String} {rung : ChannelDialRung}
    (h : rungName directRaw frontDoorRaw rung.kind = some raw) :
    (rungKnown lastGood directRaw frontDoorRaw rung).endpoint = joinAddrKnown lastGood raw rung.endpoint := by
  unfold rungKnown
  rw [h]

end

/-- What the memory holds is the latest answer, and it holds none only while every answer was the
address its own call began with. -/
structure MemoryIs (lastGood : LastGood) (log : List Entry) : Prop where
  held : ∀ name a, lastGood.lookup name = some a → latestAnswer name log = some a ∧ Changed name log
  none : ∀ name, lastGood.lookup name = none → ¬ Changed name log

theorem MemoryIs.other {lastGood : LastGood} {log : List Entry} {e : Entry} (h : MemoryIs lastGood log)
    (he : ∀ n start now, e ≠ .answered n start now) : MemoryIs lastGood (log ++ [e]) := by
  constructor
  · intro name a ha
    rw [latestAnswer_other he, changed_other he]
    exact h.held name a ha
  · intro name hnone
    rw [changed_other he]
    exact h.none name hnone

theorem Changed.append {name : String} {log : List Entry} (h : Changed name log) (log' : List Entry) :
    Changed name (log ++ log') := by
  obtain ⟨start, now, hmem, hne⟩ := h
  exact ⟨start, now, List.mem_append_left _ hmem, hne⟩

theorem changed_answered {name n : String} {log : List Entry} {start now : SocketAddr}
    (h : Changed name (log ++ [.answered n start now])) : Changed name log ∨ n = name ∧ now ≠ start := by
  obtain ⟨start', now', hmem, hne⟩ := h
  rcases List.mem_append.mp hmem with hmem | hmem
  · exact Or.inl ⟨start', now', hmem, hne⟩
  · obtain ⟨rfl, rfl, rfl⟩ := Entry.answered.inj (List.mem_singleton.mp hmem)
    exact Or.inr ⟨rfl, hne⟩

/-- An answer is remembered, unless it is the `start` of its call and there is no other. -/
theorem MemoryIs.remember {lastGood : LastGood} {log : List Entry} (h : MemoryIs lastGood log) (raw : String)
    (start now : SocketAddr) :
    MemoryIs (joinAddrRemember lastGood raw start now) (log ++ [.answered raw start now]) := by
  unfold joinAddrRemember
  by_cases hsame : now = (lastGood.lookup raw).getD start
  · rw [if_pos hsame]
    constructor
    · intro name a ha
      obtain ⟨hlatest, hchanged⟩ := h.held name a ha
      refine ⟨?_, hchanged.append _⟩
      rw [latestAnswer_answered]
      split
      · rename_i hname
        rw [hname, ha] at hsame
        exact congrArg some hsame
      · exact hlatest
    · intro name hnone hchanged
      rcases changed_answered hchanged with hchanged | ⟨hname, hne⟩
      · exact h.none name hnone hchanged
      · rw [hname, hnone] at hsame
        exact hne hsame
  · rw [if_neg hsame]
    constructor
    · intro name a ha
      rw [lookup_writeEntry] at ha
      rw [latestAnswer_answered]
      by_cases hname : raw = name
      · rw [if_pos hname] at ha ⊢
        refine ⟨ha, ?_⟩
        rw [← hname]
        cases hlast : lastGood.lookup raw with
        | none =>
          rw [hlast] at hsame
          exact ⟨start, now, by simp, hsame⟩
        | some x => exact (h.held raw x hlast).2.append _
      · rw [if_neg hname] at ha ⊢
        exact ⟨(h.held name a ha).1, (h.held name a ha).2.append _⟩
    · intro name hnone hchanged
      rw [lookup_writeEntry] at hnone
      split at hnone
      · exact absurd hnone nofun
      · rename_i hname
        rcases changed_answered hchanged with hchanged | ⟨hname', -⟩
        · exact h.none name hnone hchanged
        · exact hname hname'

/-- A read of a literal is the literal; of a name it is the latest answer or, while none of them changed
anything, the reader's own `start`. -/
def ReadRight (before : List Entry) (name : String) (start got : SocketAddr) : Prop :=
  match SocketAddr.parse name with
  | some sa => got = sa
  | none => Changed name before ∧ latestAnswer name before = some got ∨ ¬ Changed name before ∧ got = start

def EntryRight (before : List Entry) : Entry → Prop
  | .lookedUp name => SocketAddr.parse name = none
  | .answered _ _ _ => True
  | .read name start got => ReadRight before name start got

/-- The names claimed are those of the lookups, each once. -/
structure Inv (s : State) : Prop where
  claims : s.inFlight = s.lookups.map Lookup.name
  nodup : s.inFlight.Nodup
  lookups : ∀ l ∈ s.lookups, SocketAddr.parse l.name = none
  calls : ∀ c ∈ s.calls, SocketAddr.parse c.raw = none ∨ ∃ addr, c.phase = .done addr
  memory : MemoryIs s.lastGood s.log
  noted : EachAfter EntryRight s.log

theorem MemoryIs.readRight {lastGood : LastGood} {log : List Entry} (h : MemoryIs lastGood log) (raw : String)
    (start : SocketAddr) : ReadRight log raw start (joinAddrKnown lastGood raw start) := by
  unfold ReadRight joinAddrKnown
  split
  · rfl
  · cases hlast : lastGood.lookup raw with
    | none => exact Or.inr ⟨h.none raw hlast, rfl⟩
    | some a =>
      obtain ⟨hlatest, hchanged⟩ := h.held raw a hlast
      exact Or.inl ⟨hchanged, hlatest⟩

section
variable {s : State}

theorem Inv.read (h : Inv s) (raw : String) (start : SocketAddr) : Inv (s.read raw start) :=
  ⟨h.claims, h.nodup, h.lookups, h.calls, h.memory.other nofun, h.noted.append (h.memory.readRight raw start)⟩

theorem Inv.setCall (h : Inv s) {i : ℕ} {c : RefreshCall} (hc : SocketAddr.parse c.raw = none)
    (phase : CallPhase) :
    Inv (s.setCall i c phase) := by
  refine ⟨h.claims, h.nodup, h.lookups, fun c' hc' => ?_, h.memory, h.noted⟩
  rcases List.mem_or_eq_of_mem_set hc' with hc' | rfl
  · exact h.calls c' hc'
  · exact Or.inl hc

/-- A lookup keeps its name. -/
theorem map_name_setLookup {k : ℕ} {l : Lookup} (hl : s.lookups[k]? = some l) (phase : LookupPhase) :
    (s.setLookup k l phase).lookups.map Lookup.name = s.lookups.map Lookup.name := by
  change (s.lookups.set k { l with phase := phase }).map Lookup.name = _
  obtain ⟨hlt, hget⟩ := List.getElem?_eq_some_iff.mp hl
  rw [List.map_set]
  apply List.ext_getElem?
  intro j
  rw [List.getElem?_set]
  split
  · rename_i hj
    rw [← hj, if_pos (by simpa using hlt), List.getElem?_map, hl]
    rfl
  · rfl

theorem Inv.setLookup (h : Inv s) {k : ℕ} {l : Lookup} (hl : s.lookups[k]? = some l) (phase : LookupPhase) :
    Inv (s.setLookup k l phase) := by
  refine ⟨h.claims.trans (map_name_setLookup hl phase).symm, h.nodup, fun l' hl' => ?_, h.calls,
    h.memory, h.noted⟩
  rcases List.mem_or_eq_of_mem_set hl' with hl' | rfl
  · exact h.lookups l' hl'
  · exact h.lookups l (List.mem_of_getElem? hl)

theorem Inv.claim (h : Inv s) {i : ℕ} {c : RefreshCall} (hc : SocketAddr.parse c.raw = none)
    (last : SocketAddr) :
    Inv (s.claim i c last) := by
  unfold State.claim
  split
  · exact h.setCall hc _
  · rename_i hfree
    have hnew : c.raw ∉ s.inFlight := by simpa using hfree
    refine Inv.setCall (s := s.spawnLookup c.raw c.start) ⟨?_, ?_, ?_, h.calls, h.memory, h.noted⟩ hc _
    · change s.inFlight ++ [c.raw] = (s.lookups ++ [_]).map Lookup.name
      rw [List.map_append, ← h.claims]
      rfl
    · exact h.nodup.append (List.nodup_singleton _) (by simpa using hnew)
    · intro l hl
      rcases List.mem_append.mp hl with hl | hl
      · exact h.lookups l hl
      · rw [List.mem_singleton.mp hl]
        exact hc

theorem Inv.stepCall (h : Inv s) {i : ℕ} {c : RefreshCall} (hc : c ∈ s.calls) {t : State}
    (hstep : s.stepCall i c = some t) : Inv t := by
  unfold State.stepCall at hstep
  have hname (hgoing : ∀ addr, c.phase ≠ .done addr) : SocketAddr.parse c.raw = none := by
    rcases h.calls c hc with hnone | ⟨addr, hdone⟩
    · exact hnone
    · exact absurd hdone (hgoing addr)
  split at hstep
  · rename_i hphase
    obtain rfl := Option.some.inj hstep
    exact (h.read c.raw c.start).setCall (hname (by simp [hphase])) _
  · rename_i last hphase
    obtain rfl := Option.some.inj hstep
    exact h.claim (hname (by simp [hphase])) last
  · rename_i hphase
    obtain rfl := Option.some.inj hstep
    exact (h.read c.raw c.start).setCall (hname (by simp [hphase])) _
  · exact absurd hstep nofun
  · exact absurd hstep nofun

/-- With its lookup a name is free again, and no other. -/
theorem Inv.release (h : Inv s) {k : ℕ} {l : Lookup} (hl : s.lookups[k]? = some l) :
    Inv (s.releaseName k l) := by
  obtain ⟨hlt, hget⟩ := List.getElem?_eq_some_iff.mp hl
  have hnames : (s.lookups.map Lookup.name).Nodup := h.claims ▸ h.nodup
  have herase : (s.lookups.map Lookup.name).filter (· != l.name) = (s.lookups.eraseIdx k).map Lookup.name := by
    rw [← hnames.erase_eq_filter, ← List.eraseIdx_map]
    have hk : k < (s.lookups.map Lookup.name).length := by simpa using hlt
    have hname : (s.lookups.map Lookup.name)[k] = l.name := by rw [List.getElem_map, hget]
    rw [← hname, hnames.erase_getElem k hk]
  refine ⟨?_, h.nodup.filter _, fun l' hl' => h.lookups l' (List.mem_of_mem_eraseIdx hl'), h.calls,
    h.memory, h.noted⟩
  change s.inFlight.filter _ = _
  rw [h.claims, herase]
  rfl

theorem Inv.beginRefresh (h : Inv s) (raw : String) (start : SocketAddr) : Inv (s.beginRefresh raw start) := by
  have hcall (c : RefreshCall) (hc : SocketAddr.parse c.raw = none ∨ ∃ addr, c.phase = .done addr) :
      Inv { s with calls := s.calls ++ [c] } := by
    refine ⟨h.claims, h.nodup, h.lookups, fun c' hc' => ?_, h.memory, h.noted⟩
    rcases List.mem_append.mp hc' with hc' | hc'
    · exact h.calls c' hc'
    · rw [List.mem_singleton.mp hc']
      exact hc
  unfold State.beginRefresh
  split
  · exact hcall _ (Or.inr ⟨_, rfl⟩)
  · rename_i hname
    exact hcall _ (Or.inl hname)

theorem Inv.readRung (h : Inv s) (directRaw : String) (frontDoorRaw : Option String) (rung : ChannelDialRung) :
    Inv (s.readRung directRaw frontDoorRaw rung) := by
  unfold State.readRung
  split
  · rename_i raw hraw
    rw [rungKnown_endpoint hraw]
    exact h.read raw rung.endpoint
  · exact h

theorem Inv.step (h : Inv s) {e : Event} {t : State} (hstep : s.step e = some t) : Inv t := by
  cases e with
  | refresh raw start => exact Option.some.inj hstep ▸ h.beginRefresh raw start
  | call i =>
    obtain ⟨c, hc, hstep⟩ := Option.bind_eq_some_iff.mp hstep
    exact h.stepCall (List.mem_of_getElem? hc) hstep
  | waitOver i =>
    obtain ⟨c, hc, hstep⟩ := Option.bind_eq_some_iff.mp hstep
    split at hstep
    · rename_i hphase
      obtain rfl := Option.some.inj hstep
      refine h.setCall ((h.calls c (List.mem_of_getElem? hc)).resolve_right ?_) _
      simp [hphase]
    · exact absurd hstep nofun
  | run k =>
    obtain ⟨l, hl, hstep⟩ := Option.bind_eq_some_iff.mp hstep
    split at hstep
    · obtain rfl := Option.some.inj hstep
      have h' := h.setLookup hl .resolving
      have hname : SocketAddr.parse l.name = none := h.lookups l (List.mem_of_getElem? hl)
      exact ⟨h'.claims, h'.nodup, h'.lookups, h'.calls, h'.memory.other nofun, h'.noted.append hname⟩
    · exact absurd hstep nofun
  | answer k now =>
    obtain ⟨l, hl, hstep⟩ := Option.bind_eq_some_iff.mp hstep
    split at hstep
    · exact Option.some.inj hstep ▸ h.setLookup hl _
    · exact absurd hstep nofun
  | fail k =>
    obtain ⟨l, hl, hstep⟩ := Option.bind_eq_some_iff.mp hstep
    split at hstep
    · exact Option.some.inj hstep ▸ h.setLookup hl _
    · exact absurd hstep nofun
  | dropUnrun k =>
    obtain ⟨l, hl, hstep⟩ := Option.bind_eq_some_iff.mp hstep
    split at hstep
    · exact Option.some.inj hstep ▸ h.setLookup hl _
    · exact absurd hstep nofun
  | remember k =>
    obtain ⟨l, hl, hstep⟩ := Option.bind_eq_some_iff.mp hstep
    split at hstep
    · rename_i now hphase
      obtain rfl := Option.some.inj hstep
      have h' := h.setLookup hl .leaving
      exact ⟨h'.claims, h'.nodup, h'.lookups, h'.calls, h.memory.remember l.name l.start now,
        h.noted.append trivial⟩
    · exact absurd hstep nofun
  | release k =>
    obtain ⟨l, hl, hstep⟩ := Option.bind_eq_some_iff.mp hstep
    split at hstep
    · exact Option.some.inj hstep ▸ h.release hl
    · exact absurd hstep nofun
  | known raw start => exact Option.some.inj hstep ▸ h.read raw start
  | rung directRaw frontDoorRaw rung => exact Option.some.inj hstep ▸ h.readRung directRaw frontDoorRaw rung

theorem inv_start : Inv .start := by
  refine ⟨rfl, List.nodup_nil, nofun, nofun, ⟨nofun, fun name _ h => ?_⟩, EachAfter.nil _⟩
  obtain ⟨start, now, hmem, -⟩ := h
  exact absurd hmem List.not_mem_nil

end

/-- The memory does what its names promise. -/
structure FollowsTheAnswers (s : State) : Prop where
  oneLookup : ∀ name, s.lookups.countP (fun l => l.name == name) ≤ 1
  literalsNotLookedUp : ∀ name, .lookedUp name ∈ s.log → SocketAddr.parse name = none
  literalsRead : ∀ name start got sa, .read name start got ∈ s.log → SocketAddr.parse name = some sa → got = sa
  reads : EachAfter (fun before e => ∀ name start got a, e = .read name start got →
    SocketAddr.parse name = none →
    latestAnswer name before = some a → got = a) s.log

/-- Wherever a name is read after an answer, one of the answers so far was another address than the `start`
of its own call, or the reader's `start` is the latest answer. -/
def ReadersAgree (s : State) : Prop :=
  EachAfter (fun before e => ∀ name start got a, e = .read name start got → SocketAddr.parse name = none →
    latestAnswer name before = some a → Changed name before ∨ start = a) s.log

theorem inv_of_run {events : List Event} {s : State} (h : run State.step .start events = some s) : Inv s :=
  run_invariant State.step Inv (fun _ _ _ hinv hstep => hinv.step hstep) events .start s inv_start h

theorem Inv.oneLookup {s : State} (h : Inv s) (name : String) :
    s.lookups.countP (fun l => l.name == name) ≤ 1 := by
  have hcount := List.nodup_iff_count_le_one.mp h.nodup name
  rw [h.claims, List.count_eq_countP, List.countP_map] at hcount
  exact hcount

/-- An entry of the log, with what came before it. -/
theorem Inv.entryRight {s : State} (h : Inv s) {e : Entry} (he : e ∈ s.log) : ∃ before,
    EntryRight before e := by
  obtain ⟨before, after, hlog⟩ := List.append_of_mem he
  exact ⟨before, h.noted before e after hlog⟩

/-- One read follows the latest answer exactly where the condition is met. -/
theorem ReadRight.follows_iff {before : List Entry} {name : String} {start got a : SocketAddr}
    (h : ReadRight before name start got) (hname : SocketAddr.parse name = none)
    (ha : latestAnswer name before = some a) :
    got = a ↔ Changed name before ∨ start = a := by
  unfold ReadRight at h
  rw [hname] at h
  rcases h with ⟨hchanged, hlatest⟩ | ⟨hsame, hgot⟩
  · refine iff_of_true ?_ (Or.inl hchanged)
    exact Option.some.inj (hlatest.symm.trans ha)
  · rw [hgot]
    exact (or_iff_right hsame).symm

def sampleAddr (d : UInt8) : SocketAddr := ⟨.v4 ⟨203, 0, 113, d⟩, 443, 0⟩

/-- One refresh of a name whose lookup answers, and a read with another start. -/
def sampleRun (answer start : SocketAddr) : List Event :=
  [.refresh "edge.test:443" (sampleAddr 1), .call 0, .call 0, .run 0, .answer 0 answer, .remember 0,
    .release 0, .waitOver 0,
    .call 0, .known "edge.test:443" start]

/-- What that run leaves. -/
def sampleEnd (lastGood : LastGood) (answer start got : SocketAddr) : State :=
  ⟨lastGood, [], [], [⟨"edge.test:443", sampleAddr 1, .done answer⟩],
    [.read "edge.test:443" (sampleAddr 1) (sampleAddr 1), .lookedUp "edge.test:443",
      .answered "edge.test:443" (sampleAddr 1) answer, .read "edge.test:443" (sampleAddr 1) answer,
      .read "edge.test:443" start got]⟩

/-- In every run the memory follows the answers exactly where its readers agree. -/
theorem join_memory_follows_iff (events : List Event) (s : State) (h : run State.step .start events = some s) :
    FollowsTheAnswers s ↔ ReadersAgree s := by
  have hinv := inv_of_run h
  constructor
  · intro hfollows before e after hlog name start got a he hname ha
    have hright : EntryRight before e := hinv.noted before e after hlog
    rw [he] at hright
    exact (ReadRight.follows_iff hright hname ha).mp
      (hfollows.reads before e after hlog name start got a he hname ha)
  · intro hagree
    refine ⟨hinv.oneLookup, fun name he => ?_, fun name start got sa he hname => ?_, ?_⟩
    · obtain ⟨before, hright⟩ := hinv.entryRight he
      exact hright
    · obtain ⟨before, hright⟩ := hinv.entryRight he
      change ReadRight before name start got at hright
      unfold ReadRight at hright
      rw [hname] at hright
      exact hright
    · intro before e after hlog name start got a he hname ha
      have hright : EntryRight before e := hinv.noted before e after hlog
      rw [he] at hright
      exact (ReadRight.follows_iff hright hname ha).mpr
        (hagree before e after hlog name start got a he hname ha)

theorem join_memory_follows_sample :
    ∃ s, run State.step .start (sampleRun (sampleAddr 2) (sampleAddr 3)) = some s ∧
      (FollowsTheAnswers s ↔ ReadersAgree s) := by
  have hrun : run State.step .start (sampleRun (sampleAddr 2) (sampleAddr 3)) =
      some (sampleEnd [("edge.test:443", sampleAddr 2)] (sampleAddr 2) (sampleAddr 3) (sampleAddr 2)) := by
    decide +kernel
  exact ⟨_, hrun, join_memory_follows_iff _ _ hrun⟩

/-- The lookup answers what its caller began with, and another reader still gets its own start. -/
theorem answer_forgotten : ¬ ∀ events s, run State.step .start events = some s → FollowsTheAnswers s := by
  intro h
  have hrun : run State.step .start (sampleRun (sampleAddr 1) (sampleAddr 2)) =
      some (sampleEnd [] (sampleAddr 1) (sampleAddr 2) (sampleAddr 2)) := by
    decide +kernel
  have hname : SocketAddr.parse "edge.test:443" = none := by decide +kernel
  have hlatest : latestAnswer "edge.test:443"
    (sampleEnd [] (sampleAddr 1) (sampleAddr 2) (sampleAddr 2)).log.dropLast =
      some (sampleAddr 1) := by
    decide
  have hfollows := (h _ _ hrun).reads _ (.read "edge.test:443" (sampleAddr 2) (sampleAddr 2))
    [] rfl "edge.test:443"
    (sampleAddr 2) (sampleAddr 2) (sampleAddr 1) rfl hname hlatest
  exact absurd hfollows (by decide)

end CtAgent.Channel.JoinAddr
