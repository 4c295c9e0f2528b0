import CtAgent.Lib.History
import CtAgent.Lib.NetAddr

/-! The local UDP relay of a super-peer (super_peer.rs): the main loop of `run_with_cap` and the
return-path task of each client. -/
namespace CtAgent.SuperPeer

open CtAgent.Lib

def maxDatagram : ℕ := 65536

/-- A UDP datagram's length has 16 bits. -/
def Datagram := { bytes : List UInt8 // bytes.length < 2^16 }

/-- What a receive into the buffer gives of it. -/
def Datagram.received (d : Datagram) : List UInt8 := d.1.take maxDatagram

theorem Datagram.received_eq (d : Datagram) : d.received = d.1 := by
  apply List.take_of_length_le
  have hlen := d.2
  unfold maxDatagram
  omega

/-- A mapping. Sockets are numbered as they are opened, and a socket's return-path task with it. -/
structure ClientEntry where
  addr : SocketAddr
  upstream : ℕ
  deriving DecidableEq, Repr

inductive TaskPhase
  | receiving
  | replying (data : List UInt8)
  /-- out of its loop, before it has the lock -/
  | ending
  | ended
  deriving DecidableEq, Repr

/-- A `send_to` through `front`. -/
structure SentReply where
  dest : SocketAddr
  data : List UInt8
  ok : Bool
  deriving DecidableEq, Repr

/-- A return path, with what it sent so far. -/
structure ReturnPath where
  client : SocketAddr
  phase : TaskPhase := .receiving
  sent : List SentReply := []
  deriving DecidableEq, Repr

inductive MainPhase
  | receiving
  /-- waiting for the lock -/
  | locking (sender : SocketAddr) (data : List UInt8)
  /-- the lock is held while a socket is opened -/
  | opening (sender : SocketAddr) (data : List UInt8)
  | sending (upstream : ℕ) (sender : SocketAddr) (data : List UInt8)
  | ended
  deriving DecidableEq, Repr

/-- What became of a client's datagram. -/
inductive Outcome
  /-- at the cap -/
  | refused
  | openFailed
  | sent (upstream : ℕ) (data : List UInt8) (ok : Bool)
  deriving DecidableEq, Repr

structure Fate where
  sender : SocketAddr
  data : List UInt8
  outcome : Outcome
  deriving DecidableEq, Repr

structure Relay where
  clients : List ClientEntry := []
  sockets : ℕ := 0
  task : ℕ → ReturnPath := fun _ => { client := ⟨.v4 ⟨0, 0, 0, 0⟩, 0, 0⟩, phase := .ended }
  main : MainPhase := .receiving
  /-- what became of the datagrams the main loop is done with, in order -/
  fates : List Fate := []
  /-- each task that removed, with the socket of the entry it took out -/
  removals : List (ℕ × Option ℕ) := []

inductive RelayEvent
  | received (sender : SocketAddr) (d : Datagram)
  /-- a `ConnectionReset` or `ConnectionRefused` on the listening socket -/
  | receiveIgnored
  /-- any other error there: the relay returns -/
  | receiveFailed
  | locked
  | opened (ok : Bool)
  | sent (ok : Bool)
  | reply (k : ℕ) (d : Datagram)
  | replied (k : ℕ) (ok : Bool)
  /-- a read error, or `IDLE_TIMEOUT` -/
  | stopped (k : ℕ)
  | removed (k : ℕ)

namespace Relay

def get (R : Relay) (sender : SocketAddr) : Option ClientEntry :=
  R.clients.find? (fun e => e.addr = sender)

def modify (R : Relay) (k : ℕ) (f : ReturnPath → ReturnPath) : Relay :=
  { R with task := Function.update R.task k (f (R.task k)) }

def fate (R : Relay) (sender : SocketAddr) (data : List UInt8) (outcome : Outcome) : Relay :=
  { R with main := .receiving, fates := R.fates ++ [⟨sender, data, outcome⟩] }

/-- The end of a task whose guard is dropped. -/
def abort (R : Relay) (k : ℕ) : Relay := R.modify k (fun t => { t with phase := .ended })

/-- A task of a socket that is open. -/
def alive (R : Relay) (k : ℕ) (phase : TaskPhase) : Bool :=
  decide (k < R.sockets ∧ (R.task k).phase = phase)

def step (maxClients : ℕ) (R : Relay) : RelayEvent → Option Relay
  | .received sender d =>
    match R.main with
    | .receiving =>
      -- the buffer of the loop takes what fits, and what it takes is passed on
      some { R with main := .locking sender d.received }
    | _ => none
  -- an ICMP answer to an earlier datagram is read as an error and skipped
  | .receiveIgnored => if R.main = .receiving then some R else none
  | .receiveFailed => if R.main = .receiving then some { R with main := .ended } else none
  | .locked =>
    match R.main with
    | .locking sender data =>
      match R.get sender with
      | some e => some { R with main := .sending e.upstream sender data }
      | none =>
        -- the cap is checked under the lock, in front of the socket
        if maxClients ≤ R.clients.length then some (R.fate sender data .refused)
        else some { R with main := .opening sender data }
    | _ => none
  | .opened ok =>
    match R.main with
    | .opening sender data =>
      if ok then
        some { R with
          task := Function.update R.task R.sockets { client := sender }
          sockets := R.sockets + 1
          clients := ⟨sender, R.sockets⟩ :: R.clients
          main := .sending R.sockets sender data }
      else some (R.fate sender data .openFailed)
    | _ => none
  | .sent ok =>
    match R.main with
    | .sending k sender data => some (R.fate sender data (.sent k data ok))
    | _ => none
  | .reply k d =>
    if R.alive k .receiving then
      some (R.modify k (fun t => { t with phase := .replying d.received }))
    else none
  | .replied k ok =>
    match (R.task k).phase with
    | .replying data =>
      if k < R.sockets then
        some (R.modify k (fun t => { t with
          -- the task ends at the first reply that does not get through
          phase := if ok then .receiving else .ending
          sent := t.sent ++ [⟨t.client, data, ok⟩] }))
      else none
    | _ => none
  | .stopped k =>
    if R.alive k .receiving then some (R.modify k (fun t => { t with phase := .ending })) else none
  | .removed k =>
    -- the main loop holds the lock while it opens a socket
    match R.main with
    | .opening _ _ => none
    | _ =>
      if R.alive k .ending then
        let e := R.get (R.task k).client
        let R := { R with
          clients := R.clients.filter (fun e => e.addr ≠ (R.task k).client)
          removals := R.removals ++ [(k, e.map ClientEntry.upstream)] }
        -- dropping the entry aborts the task it owns
        let R := match e with
          | some e => R.abort e.upstream
          | none => R
        some (R.abort k)
      else none

end Relay

/-- The reply a task has read and not sent on yet. -/
def ReturnPath.inHand (t : ReturnPath) : List (List UInt8) :=
  match t.phase with
  | .replying data => [data]
  | _ => []

/-- The datagram the main loop has read and not done with yet. -/
def MainPhase.inHand : MainPhase → List (SocketAddr × List UInt8)
  | .locking sender data => [(sender, data)]
  | .opening sender data => [(sender, data)]
  | .sending _ sender data => [(sender, data)]
  | .receiving => []
  | .ended => []

namespace RelayEvent

def inbound : RelayEvent → Option (SocketAddr × List UInt8)
  | .received sender d => some (sender, d.1)
  | _ => none

def replyOn (k : ℕ) : RelayEvent → Option (List UInt8)
  | .reply j d => if j = k then some d.1 else none
  | _ => none

def repliedOn (k : ℕ) : RelayEvent → Option Bool
  | .replied j ok => if j = k then some ok else none
  | _ => none

def removedBy : RelayEvent → Option ℕ
  | .removed k => some k
  | _ => none

/-- No datagram comes in and no return path moves. -/
structure Silent (e : RelayEvent) : Prop where
  inbound : e.inbound = none
  reply : ∀ k, e.replyOn k = none
  replied : ∀ k, e.repliedOn k = none
  removed : e.removedBy = none

end RelayEvent

/-- The clients' datagrams of a run. -/
def datagrams (es : List RelayEvent) : List (SocketAddr × List UInt8) := es.filterMap RelayEvent.inbound

/-- What the socket `k` got in a run. -/
def repliesOn (k : ℕ) (es : List RelayEvent) : List (List UInt8) := es.filterMap (RelayEvent.replyOn k)

/-- How the sends of its return path ended. -/
def repliedOn (k : ℕ) (es : List RelayEvent) : List Bool := es.filterMap (RelayEvent.repliedOn k)

/-- The return paths that removed. -/
def removers (es : List RelayEvent) : List ℕ := es.filterMap RelayEvent.removedBy

/-- What came in on the socket `k` goes to its client, unchanged and in order, one send for each. -/
structure ReturnPath.Faithful (t : ReturnPath) (k : ℕ) (es : List RelayEvent) : Prop where
  dest : ∀ x ∈ t.sent, x.dest = t.client
  data : repliesOn k es = t.sent.map SentReply.data ++ t.inHand
  ok : repliedOn k es = t.sent.map SentReply.ok

/-- The event that ends with a datagram, and the state it meets: the main loop has the datagram in its hand,
and either its sender is unmapped at the cap, or its socket does not open, or the datagram goes out unchanged
on a socket of its sender. -/
def Fate.Decided (maxClients : ℕ) (R : Relay) (e : RelayEvent) (f : Fate) : Prop :=
  R.main.inHand = [(f.sender, f.data)] ∧
  match f.outcome with
  | .refused => e = .locked ∧ R.get f.sender = none ∧ maxClients ≤ R.clients.length
  | .openFailed => e = .opened false
  | .sent k data ok => e = .sent ok ∧ data = f.data ∧ k < R.sockets ∧ (R.task k).client = f.sender

/-- The fate that follows on `before` was decided in the run. -/
def Fate.DecidedIn (maxClients : ℕ) (es : List RelayEvent) (before : List Fate) (f : Fate) : Prop :=
  Happened (fun pre e => ∃ R, run (Relay.step maxClients) {} pre = some R ∧ R.fates = before ∧
    f.Decided maxClients R e) es

namespace Relay

theorem get_some {R : Relay} {sender : SocketAddr} {e : ClientEntry} (h : R.get sender = some e) :
    e ∈ R.clients ∧ e.addr = sender := by
  unfold get at h
  have haddr := List.find?_some h
  exact ⟨List.mem_of_find?_eq_some h, of_decide_eq_true haddr⟩

theorem get_none {R : Relay} {sender : SocketAddr} (h : R.get sender = none) :
    ∀ e ∈ R.clients, e.addr ≠ sender := by
  intro e he
  simpa using List.find?_eq_none.mp h e he

/-- The table, the tasks and the main loop's step in it. -/
structure Mapped (maxClients : ℕ) (R : Relay) : Prop where
  le_cap : R.clients.length ≤ maxClients
  nodup : (R.clients.map ClientEntry.addr).Nodup
  entry : ∀ e ∈ R.clients, e.upstream < R.sockets ∧ (R.task e.upstream).client = e.addr
  live : ∀ k < R.sockets, (R.task k).phase ≠ .ended → ⟨(R.task k).client, k⟩ ∈ R.clients
  opening : ∀ sender data, R.main = .opening sender data →
    R.get sender = none ∧ R.clients.length < maxClients
  sending : ∀ k sender data, R.main = .sending k sender data →
    k < R.sockets ∧ (R.task k).client = sender

/-- The traffic of a run. -/
structure Carried (maxClients : ℕ) (es : List RelayEvent) (R : Relay) : Prop where
  replies : ∀ k, (R.task k).Faithful k es
  unopened : ∀ k, R.sockets ≤ k → repliesOn k es = [] ∧ repliedOn k es = []
  inbound : datagrams es = R.fates.map (fun f => (f.sender, f.data)) ++ R.main.inHand
  decided : EachAfter (Fate.DecidedIn maxClients es) R.fates
  removers : removers es = R.removals.map Prod.fst
  removals : ∀ r ∈ R.removals, r.2 = some r.1

/-- Aborting a task that is over changes nothing. -/
theorem abort_abort (R : Relay) (k : ℕ) : (R.abort k).abort k = R.abort k := by
  simp only [abort, modify, Function.update_self, Function.update_idem]

/-- An address has one entry. -/
theorem Mapped.unique {maxClients : ℕ} {R : Relay} (h : Mapped maxClients R) {e e' : ClientEntry}
    (he : e ∈ R.clients) (he' : e' ∈ R.clients) (ha : e.addr = e'.addr) : e = e' :=
  List.inj_on_of_nodup_map h.nodup he he' ha

/-- A socket is in one entry. -/
theorem Mapped.apart {maxClients : ℕ} {R : Relay} (h : Mapped maxClients R) {e e' : ClientEntry}
    (he : e ∈ R.clients) (he' : e' ∈ R.clients) (hu : e.upstream = e'.upstream) : e = e' := by
  apply h.unique he he'
  rw [← (h.entry e he).2, ← (h.entry e' he').2, hu]

theorem Mapped.get_eq {maxClients : ℕ} {R : Relay} (h : Mapped maxClients R) {e : ClientEntry}
    (he : e ∈ R.clients) : R.get e.addr = some e := by
  cases hg : R.get e.addr with
  | none => exact absurd rfl (get_none hg e he)
  | some e' =>
    obtain ⟨he', ha⟩ := get_some hg
    exact congrArg some (h.unique he' he ha)

/-- A step of a task that does not revive it. -/
theorem Mapped.modify {maxClients : ℕ} {R : Relay} (h : Mapped maxClients R) {k : ℕ}
    {f : ReturnPath → ReturnPath} (hc : (f (R.task k)).client = (R.task k).client)
    (hp : (f (R.task k)).phase ≠ .ended → (R.task k).phase ≠ .ended) : Mapped maxClients (R.modify k f) := by
  have hclient (j : ℕ) : ((R.modify k f).task j).client = (R.task j).client := by
    by_cases hj : j = k
    · rw [hj]
      simpa only [Relay.modify, Function.update_self] using hc
    · simp only [Relay.modify, Function.update_of_ne hj]
  refine { h with entry := ?_, live := ?_, sending := ?_ }
  · intro e he
    rw [hclient]
    exact h.entry e he
  · intro j hj hphase
    rw [hclient]
    apply h.live j hj
    by_cases hjk : j = k
    · subst hjk
      simp only [Relay.modify, Function.update_self] at hphase
      exact hp hphase
    · simpa only [Relay.modify, Function.update_of_ne hjk] using hphase
  · intro j sender data hm
    rw [hclient]
    exact h.sending j sender data hm

section
variable {maxClients : ℕ} {es : List RelayEvent} {R R' : Relay} {e : RelayEvent}

theorem filterMap_silent {β : Type} {f : RelayEvent → Option β} (h : f e = none) :
    (es ++ [e]).filterMap f = es.filterMap f := by
  simp [List.filterMap_append, h]

theorem filterMap_heard {β : Type} {f : RelayEvent → Option β} {x : β} (h : f e = some x) :
    (es ++ [e]).filterMap f = es.filterMap f ++ [x] := by
  simp [List.filterMap_append, h]

theorem decided_later (h : EachAfter (Fate.DecidedIn maxClients es) R.fates) :
    EachAfter (Fate.DecidedIn maxClients (es ++ [e])) R.fates := by
  intro pre f post hf
  exact (h pre f post hf).later e

theorem Faithful.silent {t : ReturnPath} {k : ℕ} (h : t.Faithful k es) (hreply : e.replyOn k = none)
    (hreplied : e.repliedOn k = none) : t.Faithful k (es ++ [e]) :=
  ⟨h.dest, (filterMap_silent hreply).trans h.data, (filterMap_silent hreplied).trans h.ok⟩

theorem Carried.unopened_later (h : Carried maxClients es R) {k : ℕ} (hk : R.sockets ≤ k)
    (hreply : e.replyOn k = none) (hreplied : e.repliedOn k = none) :
    repliesOn k (es ++ [e]) = [] ∧ SuperPeer.repliedOn k (es ++ [e]) = [] :=
  ⟨(filterMap_silent hreply).trans (h.unopened k hk).1, (filterMap_silent hreplied).trans (h.unopened k hk).2⟩

/-- The main loop goes on with a datagram, or skips an error. -/
theorem Carried.silent (h : Carried maxClients es R) (he : e.Silent) (ht : R'.task = R.task)
    (hs : R'.sockets = R.sockets) (hf : R'.fates = R.fates) (hm : R'.main.inHand = R.main.inHand)
    (hr : R'.removals = R.removals) : Carried maxClients (es ++ [e]) R' := by
  constructor
  · intro k
    rw [ht]
    exact Faithful.silent (h.replies k) (he.reply k) (he.replied k)
  · intro k hk
    exact h.unopened_later (hs ▸ hk) (he.reply k) (he.replied k)
  · rw [hf, hm]
    exact (filterMap_silent he.inbound).trans h.inbound
  · rw [hf]
    exact decided_later h.decided
  · rw [hr]
    exact (filterMap_silent he.removed).trans h.removers
  · rw [hr]
    exact h.removals

/-- A step of the return path `k`. -/
theorem Carried.modify (h : Carried maxClients es R) {k : ℕ} {f : ReturnPath → ReturnPath}
    (hk : k < R.sockets) (hf : (f (R.task k)).Faithful k (es ++ [e])) (hin : e.inbound = none)
    (hreply : ∀ j, j ≠ k → e.replyOn j = none) (hreplied : ∀ j, j ≠ k → e.repliedOn j = none)
    (hremoved : e.removedBy = none) : Carried maxClients (es ++ [e]) (R.modify k f) := by
  constructor
  · intro j
    by_cases hj : j = k
    · subst hj
      simpa only [Relay.modify, Function.update_self] using hf
    · simp only [Relay.modify, Function.update_of_ne hj]
      exact Faithful.silent (h.replies j) (hreply j hj) (hreplied j hj)
  · intro j hj
    have hne : j ≠ k := by
      rintro rfl
      exact absurd hk (Nat.not_lt.mpr hj)
    exact h.unopened_later hj (hreply j hne) (hreplied j hne)
  · exact (filterMap_silent hin).trans h.inbound
  · exact decided_later h.decided
  · exact (filterMap_silent hremoved).trans h.removers
  · exact h.removals

/-- The main loop is done with a datagram. -/
theorem Carried.fate (h : Carried maxClients es R) (hrun : run (Relay.step maxClients) {} es = some R)
    (he : e.Silent) {sender : SocketAddr} {data : List UInt8} {outcome : Outcome}
    (hd : Fate.Decided maxClients R e ⟨sender, data, outcome⟩) :
    Carried maxClients (es ++ [e]) (R.fate sender data outcome) := by
  have hm : R.main.inHand = [(sender, data)] := hd.1
  constructor
  · intro k
    exact Faithful.silent (h.replies k) (he.reply k) (he.replied k)
  · intro k hk
    exact h.unopened_later hk (he.reply k) (he.replied k)
  · have hin : datagrams (es ++ [e]) = datagrams es := filterMap_silent he.inbound
    rw [hin, h.inbound, hm]
    simp only [Relay.fate, List.map_append, List.map_cons, List.map_nil, MainPhase.inHand, List.append_nil]
  · exact (decided_later h.decided).append (Happened.last ⟨R, hrun, rfl, hd⟩)
  · exact (filterMap_silent he.removed).trans h.removers
  · exact h.removals

end

/-- The parts of the main loop that touch no entry and no task. -/
theorem Mapped.toMain {maxClients : ℕ} {R R' : Relay} (h : Mapped maxClients R)
    (hc : R'.clients = R.clients) (hs : R'.sockets = R.sockets) (ht : R'.task = R.task)
    (ho : ∀ sender data, R'.main = .opening sender data →
      R.get sender = none ∧ R.clients.length < maxClients)
    (hsend : ∀ k sender data, R'.main = .sending k sender data →
      k < R.sockets ∧ (R.task k).client = sender) : Mapped maxClients R' := by
  constructor
  · exact hc ▸ h.le_cap
  · exact hc ▸ h.nodup
  · rw [hc, hs, ht]
    exact h.entry
  · rw [hc, hs, ht]
    exact h.live
  · unfold get
    rw [hc]
    exact ho
  · rw [hs, ht]
    exact hsend

theorem Mapped.fate {maxClients : ℕ} {R : Relay} (h : Mapped maxClients R) (sender : SocketAddr)
    (data : List UInt8) (outcome : Outcome) : Mapped maxClients (R.fate sender data outcome) := by
  refine h.toMain rfl rfl rfl ?_ ?_
  · intro s d hm
    cases hm
  · intro k s d hm
    cases hm

/-- A new client gets a socket that no entry has. -/
theorem Mapped.opened {maxClients : ℕ} {R : Relay} (h : Mapped maxClients R) {sender : SocketAddr}
    {data : List UInt8} (hm : R.main = .opening sender data) :
    Mapped maxClients { R with
      task := Function.update R.task R.sockets { client := sender }
      sockets := R.sockets + 1
      clients := ⟨sender, R.sockets⟩ :: R.clients
      main := .sending R.sockets sender data } := by
  obtain ⟨hnew, hroom⟩ := h.opening sender data hm
  have hold {j : ℕ} (hj : j < R.sockets) :
      Function.update R.task R.sockets { client := sender } j = R.task j :=
    Function.update_of_ne (Nat.ne_of_lt hj) _ _
  constructor
  · exact hroom
  · rw [List.map_cons, List.nodup_cons]
    refine ⟨?_, h.nodup⟩
    intro hin
    obtain ⟨e, he, ha⟩ := List.mem_map.mp hin
    exact get_none hnew e he ha
  · intro e he
    rcases List.mem_cons.mp he with rfl | he
    · exact ⟨Nat.lt_succ_self _, by simp only [Function.update_self]⟩
    · obtain ⟨hlt, hc⟩ := h.entry e he
      refine ⟨Nat.lt_succ_of_lt hlt, ?_⟩
      simp only [hold hlt]
      exact hc
  · intro j hj hphase
    rcases Nat.lt_succ_iff_lt_or_eq.mp hj with hlt | rfl
    · simp only [hold hlt] at hphase ⊢
      exact List.mem_cons_of_mem _ (h.live j hlt hphase)
    · simp only [Function.update_self]
      exact List.mem_cons_self ..
  · intro s d hs
    cases hs
  · intro j s d hs
    cases hs
    exact ⟨Nat.lt_succ_self _, by simp only [Function.update_self]⟩

theorem Carried.opened {maxClients : ℕ} {es : List RelayEvent} {R : Relay} (h : Carried maxClients es R)
    {sender : SocketAddr} {data : List UInt8} (hm : R.main = .opening sender data) :
    Carried maxClients (es ++ [.opened true]) { R with
      task := Function.update R.task R.sockets { client := sender }
      sockets := R.sockets + 1
      clients := ⟨sender, R.sockets⟩ :: R.clients
      main := .sending R.sockets sender data } := by
  constructor
  · intro j
    by_cases hj : j = R.sockets
    · -- nothing has come in on a socket that was not open
      subst hj
      obtain ⟨hnone, hnone'⟩ := h.unopened_later (e := .opened true) le_rfl rfl rfl
      simp only [Function.update_self]
      exact ⟨fun x hx => by simp at hx, hnone, hnone'⟩
    · simp only [Function.update_of_ne hj]
      exact Faithful.silent (h.replies j) rfl rfl
  · intro j hj
    exact h.unopened_later (Nat.le_of_succ_le hj) rfl rfl
  · have hin := h.inbound
    rw [hm] at hin
    exact (filterMap_silent rfl).trans hin
  · exact decided_later h.decided
  · exact (filterMap_silent rfl).trans h.removers
  · exact h.removals

/-- The entry a task that ends takes out is its own. -/
theorem Mapped.removed_entry {maxClients : ℕ} {R : Relay} (h : Mapped maxClients R) {k : ℕ}
    (hk : k < R.sockets) (hp : (R.task k).phase = .ending) :
    R.get (R.task k).client = some ⟨(R.task k).client, k⟩ :=
  h.get_eq (h.live k hk (by simp [hp]))

theorem Mapped.removed {maxClients : ℕ} {R : Relay} (h : Mapped maxClients R) {k : ℕ}
    (hk : k < R.sockets) (hp : (R.task k).phase = .ending) (hm : ∀ s d, R.main ≠ .opening s d)
    (removals : List (ℕ × Option ℕ)) :
    Mapped maxClients (Relay.abort { R with
      clients := R.clients.filter (fun e => e.addr ≠ (R.task k).client)
      removals := removals } k) := by
  have hclient (j : ℕ) : (Function.update R.task k { R.task k with phase := .ended } j).client =
      (R.task j).client := by
    by_cases hj : j = k
    · rw [hj, Function.update_self]
    · rw [Function.update_of_ne hj]
  constructor
  · exact (List.length_filter_le _ _).trans h.le_cap
  · exact (h.nodup.sublist (List.Sublist.map _ List.filter_sublist))
  · intro e he
    have hent := h.entry e (List.mem_of_mem_filter he)
    exact ⟨hent.1, (hclient _).trans hent.2⟩
  · intro j hj hphase
    have hjk : j ≠ k := by
      rintro rfl
      simp [Relay.abort, Relay.modify] at hphase
    simp only [Relay.abort, Relay.modify, Function.update_of_ne hjk] at hphase ⊢
    have hin := h.live j hj hphase
    apply List.mem_filter.mpr ⟨hin, _⟩
    rw [decide_eq_true_eq]
    intro ha
    -- one address, one entry, one socket
    have hown := h.live k hk (by simp [hp])
    exact hjk (congrArg ClientEntry.upstream (h.unique hin hown ha))
  · intro s d hs
    exact absurd hs (hm s d)
  · intro j s d hs
    have hsend := h.sending j s d hs
    exact ⟨hsend.1, (hclient j).trans hsend.2⟩

structure Inv (maxClients : ℕ) (es : List RelayEvent) (R : Relay) : Prop where
  mapped : Mapped maxClients R
  carried : Carried maxClients es R

theorem inv_init (maxClients : ℕ) : Inv maxClients [] {} := by
  constructor
  · constructor <;> simp
  · refine ⟨fun k => ⟨fun x hx => by simp at hx, rfl, rfl⟩, fun k _ => ⟨rfl, rfl⟩, rfl,
      EachAfter.nil _, rfl, ?_⟩
    intro r hr
    cases hr

section
variable {maxClients : ℕ} {es : List RelayEvent} {R R' : Relay} {e : RelayEvent}

theorem silent_locked : RelayEvent.locked.Silent := ⟨rfl, fun _ => rfl, fun _ => rfl, rfl⟩

theorem silent_opened (ok : Bool) : (RelayEvent.opened ok).Silent := ⟨rfl, fun _ => rfl, fun _ => rfl, rfl⟩

theorem silent_sent (ok : Bool) : (RelayEvent.sent ok).Silent := ⟨rfl, fun _ => rfl, fun _ => rfl, rfl⟩

theorem Inv.locked (h : Inv maxClients es R) (hrun : run (Relay.step maxClients) {} es = some R)
    {sender : SocketAddr} {data : List UInt8} (hm : R.main = .locking sender data)
    (hs : R.step maxClients .locked = some R') : Inv maxClients (es ++ [.locked]) R' := by
  have hhand : R.main.inHand = [(sender, data)] := by rw [hm]; rfl
  simp only [step, hm] at hs
  split at hs
  · rename_i e he
    cases hs
    obtain ⟨hin, ha⟩ := get_some he
    have hent := h.mapped.entry e hin
    constructor
    · refine h.mapped.toMain rfl rfl rfl ?_ ?_
      · intro s d ho
        cases ho
      · intro k s d hk
        cases hk
        exact ⟨hent.1, hent.2.trans ha⟩
    · exact h.carried.silent silent_locked rfl rfl rfl hhand.symm rfl
  · rename_i hnew
    split at hs
    · rename_i hfull
      cases hs
      exact ⟨h.mapped.fate _ _ _, h.carried.fate hrun silent_locked ⟨hhand, rfl, hnew, hfull⟩⟩
    · rename_i hroom
      cases hs
      constructor
      · refine h.mapped.toMain rfl rfl rfl ?_ ?_
        · intro s d ho
          cases ho
          exact ⟨hnew, Nat.not_le.mp hroom⟩
        · intro k s d hk
          cases hk
      · exact h.carried.silent silent_locked rfl rfl rfl hhand.symm rfl

theorem Inv.received (h : Inv maxClients es R) {sender : SocketAddr} {d : Datagram}
    (hs : R.step maxClients (.received sender d) = some R') :
    Inv maxClients (es ++ [.received sender d]) R' := by
  simp only [Relay.step] at hs
  split at hs
  · rename_i hm
    cases hs
    constructor
    · refine h.mapped.toMain rfl rfl rfl ?_ ?_
      · intro s d' ho
        cases ho
      · intro k s d' hk
        cases hk
    · have hin := h.carried.inbound
      rw [hm] at hin
      refine ⟨fun k => Faithful.silent (h.carried.replies k) rfl rfl, ?_, ?_, decided_later h.carried.decided,
        ?_, h.carried.removals⟩
      · intro k hk
        exact h.carried.unopened_later hk rfl rfl
      · simp only [MainPhase.inHand, List.append_nil] at hin
        have hlast : datagrams (es ++ [.received sender d]) = datagrams es ++ [(sender, d.1)] :=
          filterMap_heard rfl
        rw [hlast, hin]
        simp only [MainPhase.inHand, d.received_eq]
      · exact (filterMap_silent rfl).trans h.carried.removers
  · simp at hs

theorem Inv.reply (h : Inv maxClients es R) {k : ℕ} {d : Datagram}
    (hs : R.step maxClients (.reply k d) = some R') : Inv maxClients (es ++ [.reply k d]) R' := by
  simp only [Relay.step] at hs
  split at hs
  · rename_i ha
    obtain ⟨hk, hp⟩ := of_decide_eq_true ha
    obtain ⟨hto, hdata, hok⟩ := h.carried.replies k
    cases hs
    refine ⟨h.mapped.modify rfl (fun _ => by simp [hp]), ?_⟩
    refine h.carried.modify hk ⟨hto, ?_, ?_⟩ rfl ?_ (fun _ _ => rfl) rfl
    · simp only [ReturnPath.inHand, hp, List.append_nil] at hdata
      have hlast : repliesOn k (es ++ [.reply k d]) = repliesOn k es ++ [d.1] :=
        filterMap_heard (by simp [RelayEvent.replyOn])
      simp only [ReturnPath.inHand, hlast, hdata, d.received_eq]
    · exact (filterMap_silent rfl).trans hok
    · intro j hj
      simp [RelayEvent.replyOn, Ne.symm hj]
  · simp at hs

theorem Inv.replied (h : Inv maxClients es R) {k : ℕ} {ok : Bool}
    (hs : R.step maxClients (.replied k ok) = some R') : Inv maxClients (es ++ [.replied k ok]) R' := by
  simp only [Relay.step] at hs
  split at hs
  · rename_i data hp
    split at hs
    · rename_i hk
      cases hs
      obtain ⟨hto, hdata, hok⟩ := h.carried.replies k
      refine ⟨h.mapped.modify rfl (fun _ => by simp [hp]), ?_⟩
      refine h.carried.modify hk ⟨?_, ?_, ?_⟩ rfl (fun _ _ => rfl) ?_ rfl
      · intro x hx
        rcases List.mem_append.mp hx with hx | hx
        · exact hto x hx
        · rw [List.mem_singleton.mp hx]
      · -- the reply in its hand is the one it has sent now
        simp only [ReturnPath.inHand, hp] at hdata
        have hlast : repliesOn k (es ++ [.replied k ok]) = repliesOn k es := filterMap_silent rfl
        cases ok <;> simp [ReturnPath.inHand, hlast, hdata]
      · have hlast : SuperPeer.repliedOn k (es ++ [.replied k ok]) = SuperPeer.repliedOn k es ++ [ok] :=
          filterMap_heard (by simp [RelayEvent.repliedOn])
        simp [hlast, hok]
      · intro j hj
        simp [RelayEvent.repliedOn, Ne.symm hj]
    · simp at hs
  · simp at hs

theorem Inv.stopped (h : Inv maxClients es R) {k : ℕ} (hs : R.step maxClients (.stopped k) = some R') :
    Inv maxClients (es ++ [.stopped k]) R' := by
  simp only [Relay.step] at hs
  split at hs
  · rename_i ha
    obtain ⟨hk, hp⟩ := of_decide_eq_true ha
    have hfaithful := Faithful.silent (e := .stopped k) (h.carried.replies k) rfl rfl
    obtain ⟨hto, hdata, hok⟩ := hfaithful
    cases hs
    refine ⟨h.mapped.modify rfl (fun _ => by simp [hp]), ?_⟩
    refine h.carried.modify hk ⟨hto, ?_, hok⟩ rfl (fun _ _ => rfl) (fun _ _ => rfl) rfl
    simp only [ReturnPath.inHand, hp] at hdata
    exact hdata
  · simp at hs

theorem Inv.removed (h : Inv maxClients es R) {k : ℕ} (hs : R.step maxClients (.removed k) = some R') :
    Inv maxClients (es ++ [.removed k]) R' := by
  simp only [Relay.step] at hs
  split at hs
  · simp at hs
  · rename_i hm
    split at hs
    · rename_i ha
      obtain ⟨hk, hp⟩ := of_decide_eq_true ha
      rw [h.mapped.removed_entry hk hp] at hs
      cases hs
      set Q : Relay := { R with
        clients := R.clients.filter (fun e => e.addr ≠ (R.task k).client)
        removals := R.removals ++ [(k, some k)] } with hQ
      have hmapped : Mapped maxClients (Q.abort k) := h.mapped.removed hk hp hm _
      have htask (j : ℕ) : ((Q.abort k).task j).Faithful j (es ++ [.removed k]) := by
        have hold := Faithful.silent (e := .removed k) (h.carried.replies j) rfl rfl
        by_cases hj : j = k
        · subst hj
          obtain ⟨hto, hdata, hok⟩ := hold
          simp only [ReturnPath.inHand, hp] at hdata
          simp only [hQ, Relay.abort, Relay.modify, Function.update_self]
          exact ⟨hto, hdata, hok⟩
        · simpa only [hQ, Relay.abort, Relay.modify, Function.update_of_ne hj] using hold
      have hcarried : Carried maxClients (es ++ [.removed k]) (Q.abort k) := by
        refine ⟨htask, ?_, ?_, decided_later h.carried.decided, ?_, ?_⟩
        · intro j hj
          exact h.carried.unopened_later hj rfl rfl
        · exact (filterMap_silent rfl).trans h.carried.inbound
        · have hlast : SuperPeer.removers (es ++ [.removed k]) = SuperPeer.removers es ++ [k] :=
            filterMap_heard rfl
          simp only [hlast, h.carried.removers, hQ, Relay.abort, Relay.modify, List.map_append, List.map_cons,
            List.map_nil]
        · intro r hr
          rcases List.mem_append.mp hr with hr | hr
          · exact h.carried.removals r hr
          · rw [List.mem_singleton.mp hr]
      -- the guard in the entry is the task's own
      change Inv maxClients _ ((Q.abort k).abort k)
      rw [abort_abort]
      exact ⟨hmapped, hcarried⟩
    · simp at hs

theorem Inv.step (h : Inv maxClients es R) (hrun : run (Relay.step maxClients) {} es = some R)
    (hs : R.step maxClients e = some R') : Inv maxClients (es ++ [e]) R' := by
  cases e with
  | received sender d => exact h.received hs
  | receiveIgnored =>
    simp only [Relay.step] at hs
    split at hs
    · cases hs
      have hsilent : RelayEvent.receiveIgnored.Silent := ⟨rfl, fun _ => rfl, fun _ => rfl, rfl⟩
      exact ⟨h.mapped, h.carried.silent hsilent rfl rfl rfl rfl rfl⟩
    · simp at hs
  | receiveFailed =>
    simp only [Relay.step] at hs
    split at hs
    · rename_i hm
      cases hs
      constructor
      · refine h.mapped.toMain rfl rfl rfl ?_ ?_
        · intro s d ho
          cases ho
        · intro k s d hk
          cases hk
      · have hsilent : RelayEvent.receiveFailed.Silent := ⟨rfl, fun _ => rfl, fun _ => rfl, rfl⟩
        exact h.carried.silent hsilent rfl rfl rfl (by rw [hm]; rfl) rfl
    · simp at hs
  | locked =>
    cases hm : R.main with
    | locking sender data => exact h.locked hrun hm hs
    | _ => simp [Relay.step, hm] at hs
  | opened ok =>
    simp only [Relay.step] at hs
    split at hs
    · rename_i sender data hm
      have hhand : R.main.inHand = [(sender, data)] := by rw [hm]; rfl
      cases ok with
      | true =>
        cases hs
        exact ⟨h.mapped.opened hm, h.carried.opened hm⟩
      | false =>
        cases hs
        exact ⟨h.mapped.fate _ _ _, h.carried.fate hrun (silent_opened false) ⟨hhand, rfl⟩⟩
    · simp at hs
  | sent ok =>
    simp only [Relay.step] at hs
    split at hs
    · rename_i k sender data hm
      cases hs
      have hhand : R.main.inHand = [(sender, data)] := by rw [hm]; rfl
      have hdecided : Fate.Decided maxClients R (.sent ok) ⟨sender, data, .sent k data ok⟩ :=
        ⟨hhand, rfl, rfl, h.mapped.sending k sender data hm⟩
      exact ⟨h.mapped.fate _ _ _, h.carried.fate hrun (silent_sent ok) hdecided⟩
    · simp at hs
  | reply k d => exact h.reply hs
  | replied k ok => exact h.replied hs
  | stopped k => exact h.stopped hs
  | removed k => exact h.removed hs

end

end Relay

/-- After every run of the relay: the cap holds, each client has a socket of its own, what came in on a
socket went to the socket's client and every datagram out on its client's socket, all unchanged, but for the
cap and socket errors, and a return path that ended took out its own entry. -/
theorem relay_isolation {maxClients : ℕ} {es : List RelayEvent} {R : Relay}
    (h : run (Relay.step maxClients) {} es = some R) :
    R.clients.length ≤ maxClients ∧ (R.clients.map ClientEntry.addr).Nodup ∧
      (∀ e ∈ R.clients, ∀ e' ∈ R.clients, e.upstream = e'.upstream → e = e') ∧
      (∀ e ∈ R.clients, (R.task e.upstream).client = e.addr) ∧
      (∀ k, (R.task k).Faithful k es) ∧
      datagrams es = R.fates.map (fun f => (f.sender, f.data)) ++ R.main.inHand ∧
      EachAfter (Fate.DecidedIn maxClients es) R.fates ∧
      removers es = R.removals.map Prod.fst ∧ ∀ r ∈ R.removals, r.2 = some r.1 := by
  have hi : Relay.Inv maxClients es R :=
    run_history (Relay.inv_init maxClients) (fun _ _ _ _ hes ih hs => ih.step hes hs) h
  refine ⟨hi.mapped.le_cap, hi.mapped.nodup, ?_, ?_, hi.carried.replies, hi.carried.inbound,
    hi.carried.decided, hi.carried.removers, hi.carried.removals⟩
  · intro e he e' he' hu
    exact hi.mapped.apart he he' hu
  · intro e he
    exact (hi.mapped.entry e he).2

def sampleClient : SocketAddr := ⟨.v4 ⟨192, 168, 0, 7⟩, 5000, 0⟩

/-- A client comes and gets a reply, its path idles out, and while the task waits for the lock the client is
served on the old socket once more; behind the removal it gets a new one. -/
def idlesOut : List RelayEvent :=
  [.received sampleClient ⟨[1], by decide⟩, .locked, .opened true, .sent true, .reply 0 ⟨[9], by decide⟩,
    .replied 0 true, .stopped 0, .received sampleClient ⟨[2], by decide⟩, .locked, .sent true, .removed 0,
    .received sampleClient ⟨[3], by decide⟩, .locked, .opened true, .sent true]

theorem relay_isolation_sample : ∃ R, run (Relay.step 1) {} idlesOut = some R ∧
    R.clients = [⟨sampleClient, 1⟩] ∧ R.removals = [(0, some 0)] ∧
      (R.task 0).sent = [⟨sampleClient, [9], true⟩] ∧ EachAfter (Fate.DecidedIn 1 idlesOut) R.fates := by
  have hend : (run (Relay.step 1) {} idlesOut).map (fun R => (R.clients, R.removals, (R.task 0).sent)) =
      some ([⟨sampleClient, 1⟩], [(0, some 0)], [⟨sampleClient, [9], true⟩]) := by decide
  obtain ⟨R, hR, hx⟩ := Option.map_eq_some_iff.mp hend
  obtain ⟨hc, hx⟩ := Prod.mk.inj hx
  obtain ⟨hr, hsent⟩ := Prod.mk.inj hx
  obtain ⟨-, -, -, -, -, -, hdecided, -, -⟩ := relay_isolation hR
  exact ⟨R, hR, hc, hr, hsent, hdecided⟩

end CtAgent.SuperPeer
