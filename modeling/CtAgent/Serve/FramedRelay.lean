import CtAgent.Lib.Bytes
import CtAgent.Lib.Run

/-! `serve_framed_duplex_to_origin` (serve.rs): the half from the edge to the Origin, the half back, and
the one writer to the edge with its queue and its timers. The clock counts milliseconds, as the tracker
of the keepalives does. -/
namespace CtAgent.Serve.Framed

open CtAgent.Lib

def framedChunk : ℕ := 16 * 1024

def framedWriteQueue : ℕ := 16

def keepaliveInterval : ℕ := 8000

def keepaliveDeadAfter : ℕ := 24000

/-- The tracker of `fallback_framing`, with the keepalives it still waits for and when they were sent. -/
class KeepaliveTracker (κ : Type) where
  new : κ
  sent : κ → ℕ → ℕ → κ
  ack : κ → ℕ → κ
  oldestOutstandingAgeMs : κ → ℕ → Option ℕ
  outstanding : κ → List (ℕ × ℕ)
  outstanding_new : outstanding new = []
  outstanding_sent : ∀ k c now, ∀ x ∈ outstanding (sent k c now), x ∈ outstanding k ∨ x = (c, now)
  outstanding_ack : ∀ k c, ∀ x ∈ outstanding (ack k c), x ∈ outstanding k ∧ x.1 ≠ c
  oldest_mem : ∀ k now age, oldestOutstandingAgeMs k now = some age →
    ∃ x ∈ outstanding k, age = now - x.2

/-- What `FrameReader` reads from the edge. -/
inductive Frame
  | data (d : Bytes)
  | keepalive (counter : ℕ) (shouldAck : Bool)
  | keepaliveAck (counter : ℕ)
  | fin
  deriving DecidableEq, Repr

/-- What `FrameWriter` writes to the edge. -/
inductive WireFrame
  | data (payload : Bytes)
  | keepalive (counter : ℕ)
  | keepaliveAck (counter : ℕ)
  | fin
  deriving DecidableEq, Repr

/-- The units of work of the writer. -/
inductive EdgeWrite
  | data (payload : Bytes)
  | ack (counter : ℕ)
  | ackReceived (counter : ℕ)
  | fin
  | peerFin
  deriving DecidableEq, Repr

/-- Where the half from the edge to the Origin stands; `last` is the part behind its loop. -/
inductive Up
  | reading
  | dialing (d : Bytes)
  /-- in `write_all`, with what is still to be written -/
  | writing (rest : Bytes)
  | halfClosing (last : Bool)
  | sending (ev : EdgeWrite) (last : Bool)
  | done
  deriving DecidableEq, Repr

/-- The oneshot on which the Origin's read half is handed over. -/
inductive Dial
  | pending
  | sent
  | dropped
  deriving DecidableEq, Repr

/-- The sender's end goes, used or not. -/
def Dial.drop : Dial → Dial
  | .sent => .sent
  | _ => .dropped

/-- `write_all` goes on while there is something left. -/
def Up.write (rest : Bytes) : Up := if rest = [] then .reading else .writing rest

inductive Down
  | waiting
  | reading
  | sending (ev : EdgeWrite)
  | done
  deriving DecidableEq, Repr

/-- The half goes on behind data and ends behind its FIN. -/
def Down.after : EdgeWrite → Down
  | .fin => .done
  | _ => .reading

inductive Writer
  /-- in the `select!`, with the dead-peer deadline if there is one -/
  | selecting (deadline : Option ℕ)
  /-- in `apply_edge_write`, called by the drain before a verdict or not -/
  | applying (ev : EdgeWrite) (drain : Bool)
  | keepaliving
  /-- in the FIN of the post-peer-FIN idle bound -/
  | finning
  | draining
  | closing
  deriving DecidableEq, Repr

inductive RelayError
  /-- the verdict on a peer that left a keepalive unanswered for so many milliseconds -/
  | peerDead (age : ℕ)
  | other (text : String)
  deriving DecidableEq, Repr

def RelayError.text : RelayError → String
  | .peerDead age =>
    "framed relay: peer did not answer a keepalive for " ++ toString age ++ "ms (>= " ++
      toString keepaliveDeadAfter ++ "ms) — treating the connection as dead"
  | .other text => text

inductive FinCause
  | queued
  | idleBound
  deriving DecidableEq, Repr

/-- One relay. On the stream a frame, or its clean end, is `read` or still unread; `keepalives` are the
written ones with their times, and `answered` the counters whose ACK the edge has put on the stream since
the keepalive went out. -/
structure Relay (κ : Type) where
  now : ℕ
  read : List (Option Frame)
  stream : List (Option Frame)
  up : Up
  /-- `origin_w.is_some()` -/
  originW : Bool
  dial : Dial
  dials : ℕ
  toOrigin : Bytes
  down : Down
  fromOrigin : Bytes
  queue : List EdgeWrite
  writer : Writer
  wire : List WireFrame
  tracker : κ
  counter : ℕ
  peerFin : Bool
  finSent : Bool
  lastWrite : ℕ
  lastData : ℕ
  returned : Option (Except RelayError Unit)
  finCause : Option FinCause
  keepalives : List (ℕ × ℕ)
  answered : List ℕ

inductive Event
  | tick (ms : ℕ)
  | edgePuts (f : Option Frame)
  | upReads
  | dialEnds (error : Option String)
  | originTakes (n : ℕ)
  | originWriteFails (text : String)
  | originHalfCloses
  | upSends
  | downLearns
  | originGives (bytes : Bytes)
  | originEnds
  | originReadFails (text : String)
  | downSends
  | writerReceives
  | writerFindsClosed
  | keepaliveDue
  | idleDue
  | deadlineDue
  | writes
  | writeFails (text : String)
  | drains
  | judges
  | shutsDown
  | shutdownFails (text : String)
  deriving DecidableEq, Repr

section
variable {κ : Type}

def Frame.isData : Frame → Bool
  | .data _ => true
  | _ => false

/-- What the edge may put behind `put`: nothing behind the end, and no DATA behind a FIN. -/
def accepts (put : List (Option Frame)) (f : Option Frame) : Bool :=
  !put.contains none && !(put.contains (some .fin) && (f.map Frame.isData).getD false)

def Relay.put (s : Relay κ) : List (Option Frame) := s.read ++ s.stream

def Relay.fail (s : Relay κ) (text : String) : Relay κ := { s with returned := some (.error (.other text)) }

/-- The edge's answer to a keepalive that has gone out. -/
def Relay.noteAnswer (s : Relay κ) : Option Frame → List ℕ
  | some (.keepaliveAck c) => if 1 ≤ c ∧ c ≤ s.counter then s.answered ++ [c] else s.answered
  | _ => s.answered

/-- Behind the peer's data: the Origin's write half is closed if there is one, and the dial channel is
dropped, by an explicit FIN at once and by the end of the stream with the half itself. -/
def Relay.peerEnds (s : Relay κ) (last : Bool) : Relay κ :=
  let s := { s with
    up := if s.originW then .halfClosing last else .sending .peerFin last
    originW := false }
  if last then s else { s with dial := s.dial.drop }

/-- The frame that `reader.next()` returns. -/
def Relay.handle (s : Relay κ) : Option Frame → Relay κ
  | some (.data d) =>
    -- an empty DATA is no sign of the Client
    if d = [] then s
    else if s.originW then { s with up := .writing d }
    else { s with up := .dialing d, dials := s.dials + 1 }
  | some (.keepalive c shouldAck) => if shouldAck then { s with up := .sending (.ack c) false } else s
  | some (.keepaliveAck c) => { s with up := .sending (.ackReceived c) false }
  | some .fin => s.peerEnds false
  | none => s.peerEnds true

/-- Handling a frame leaves what the other parts own. -/
theorem Relay.handle_eq (s : Relay κ) (f : Option Frame) : s.handle f =
    { s with
      up := (s.handle f).up
      originW := (s.handle f).originW
      dial := (s.handle f).dial
      dials := (s.handle f).dials } := by
  unfold Relay.handle
  split
  · split_ifs <;> rfl
  · split_ifs <;> rfl
  · rfl
  · rfl
  · rfl

/-- What the writer has taken off the queue. -/
def Writer.inHand : Writer → List EdgeWrite
  | .applying ev _ => [ev]
  | _ => []

/-- The work handed to the writer and not yet done. -/
def Relay.work (s : Relay κ) : List EdgeWrite := s.writer.inHand ++ s.queue

/-- What an event of the half from the edge does. -/
def Relay.stepUp (s : Relay κ) : Event → Option (Relay κ)
  | .upReads =>
    match s.up, s.stream with
    | .reading, f :: rest => some (Relay.handle { s with read := s.read ++ [f], stream := rest } f)
    | _, _ => none
  | .dialEnds error =>
    match s.up, error with
    | .dialing d, none =>
      -- `origin_r_tx.take()`: the sender is still there only before the first dial and before a FIN
      if s.dial = .pending then some { s with up := .writing d, originW := true, dial := .sent }
      else some (s.fail "origin dialed twice on one relay")
    | .dialing _, some text => some (s.fail text)
    | _, _ => none
  | .originTakes n =>
    match s.up with
    | .writing rest =>
      -- one write of `write_all`, which the Origin may take only a part of
      if 0 < n ∧ n ≤ rest.length then
        some { s with
          toOrigin := s.toOrigin ++ rest.take n
          up := Up.write (rest.drop n) }
      else none
    | _ => none
  | .originWriteFails text =>
    match s.up with
    | .writing _ => some (s.fail text)
    | _ => none
  | .originHalfCloses =>
    match s.up with
    -- `let _ = w.shutdown().await`: an error is not looked at
    | .halfClosing last => some { s with up := .sending .peerFin last }
    | _ => none
  | .upSends =>
    match s.up with
    | .sending ev last =>
      -- `tx_up.send` waits for room
      if s.queue.length < framedWriteQueue then
        -- behind the loop the half returns, and its end of the dial channel goes
        if last then
          some { s with
            queue := s.queue ++ [ev]
            up := .done
            dial := s.dial.drop }
        else some { s with queue := s.queue ++ [ev], up := .reading }
      else none
    | _ => none
  | _ => none

/-- What an event of the half from the Origin does. -/
def Relay.stepDown (s : Relay κ) : Event → Option (Relay κ)
  | .downLearns =>
    match s.down, s.dial with
    | .waiting, .sent => some { s with down := .reading }
    -- no Origin will ever be dialed, and the peer is owed the FIN all the same
    | .waiting, .dropped => some { s with down := .sending .fin }
    | _, _ => none
  | .originGives bytes =>
    -- one read into the buffer; a read of nothing is the Origin's end
    if s.down = .reading ∧ bytes ≠ [] ∧ bytes.length ≤ framedChunk then
      some { s with fromOrigin := s.fromOrigin ++ bytes, down := .sending (.data bytes) }
    else none
  | .originEnds => if s.down = .reading then some { s with down := .sending .fin } else none
  | .originReadFails text => if s.down = .reading then some (s.fail text) else none
  | .downSends =>
    match s.down with
    | .sending ev =>
      if s.queue.length < framedWriteQueue then
        some { s with queue := s.queue ++ [ev], down := .after ev }
      else none
    | _ => none
  | _ => none

/-- The steps of the half from the edge, one by one. -/
inductive UpStep (s : Relay κ) : Event → Relay κ → Prop
  | reads (f rest) (hu : s.up = .reading) (hs : s.stream = f :: rest) :
      UpStep s .upReads (Relay.handle { s with read := s.read ++ [f], stream := rest } f)
  | dials (d) (hu : s.up = .dialing d) (hd : s.dial = .pending) :
      UpStep s (.dialEnds none) { s with up := .writing d, originW := true, dial := .sent }
  | takes (n rest) (hu : s.up = .writing rest) (hn : 0 < n) (hle : n ≤ rest.length) :
      UpStep s (.originTakes n) { s with
        toOrigin := s.toOrigin ++ rest.take n
        up := Up.write (rest.drop n) }
  | halfCloses (last) (hu : s.up = .halfClosing last) :
      UpStep s .originHalfCloses { s with up := .sending .peerFin last }
  | sends (ev) (hu : s.up = .sending ev false) (hq : s.queue.length < framedWriteQueue) :
      UpStep s .upSends { s with queue := s.queue ++ [ev], up := .reading }
  | sendsLast (ev) (hu : s.up = .sending ev true) (hq : s.queue.length < framedWriteQueue) :
      UpStep s .upSends { s with
        queue := s.queue ++ [ev]
        up := .done
        dial := s.dial.drop }
  | fails (e text) (hu : (∃ d, s.up = .dialing d) ∨ ∃ rest, s.up = .writing rest) :
      UpStep s e (s.fail text)

/-- The steps of the half from the Origin. -/
inductive DownStep (s : Relay κ) : Event → Relay κ → Prop
  | dialed (hd : s.down = .waiting) (ho : s.dial = .sent) : DownStep s .downLearns { s with down := .reading }
  | dropped (hd : s.down = .waiting) (ho : s.dial = .dropped) :
      DownStep s .downLearns { s with down := .sending .fin }
  | gives (bytes) (hd : s.down = .reading) (hne : bytes ≠ []) (hle : bytes.length ≤ framedChunk) :
      DownStep s (.originGives bytes)
        { s with fromOrigin := s.fromOrigin ++ bytes, down := .sending (.data bytes) }
  | ends (hd : s.down = .reading) : DownStep s .originEnds { s with down := .sending .fin }
  | fails (text) (hd : s.down = .reading) : DownStep s (.originReadFails text) (s.fail text)
  | sends (ev) (hd : s.down = .sending ev) (hq : s.queue.length < framedWriteQueue) :
      DownStep s .downSends
        { s with queue := s.queue ++ [ev], down := .after ev }

theorem Relay.stepUp_cases {s t : Relay κ} {e : Event} (h : s.stepUp e = some t) : UpStep s e t := by
  cases e with
  | upReads =>
    simp only [Relay.stepUp] at h
    split at h
    · rename_i f rest hu hs
      cases h
      exact .reads f rest hu hs
    · cases h
  | dialEnds error =>
    simp only [Relay.stepUp] at h
    split at h
    · rename_i d hu
      split_ifs at h with hd
      · cases h
        exact .dials d hu hd
      · cases h
        exact .fails _ _ (.inl ⟨d, hu⟩)
    · rename_i d text hu
      cases h
      exact .fails _ _ (.inl ⟨d, hu⟩)
    · cases h
  | originTakes n =>
    simp only [Relay.stepUp] at h
    split at h
    · rename_i rest hu
      split_ifs at h with hn
      cases h
      exact .takes n rest hu hn.1 hn.2
    · cases h
  | originWriteFails text =>
    simp only [Relay.stepUp] at h
    split at h
    · rename_i rest hu
      cases h
      exact .fails _ _ (.inr ⟨rest, hu⟩)
    · cases h
  | originHalfCloses =>
    simp only [Relay.stepUp] at h
    split at h
    · rename_i last hu
      cases h
      exact .halfCloses last hu
    · cases h
  | upSends =>
    simp only [Relay.stepUp] at h
    split at h
    · rename_i ev last hu
      split_ifs at h with hq hl
      · cases h
        subst hl
        exact .sendsLast ev hu hq
      · cases h
        obtain rfl := Bool.not_eq_true _ ▸ hl
        exact .sends ev hu hq
    · cases h
  | _ => cases h

theorem Relay.stepDown_cases {s t : Relay κ} {e : Event} (h : s.stepDown e = some t) : DownStep s e t := by
  cases e with
  | downLearns =>
    simp only [Relay.stepDown] at h
    split at h
    · rename_i hd ho
      cases h
      exact .dialed hd ho
    · rename_i hd ho
      cases h
      exact .dropped hd ho
    · cases h
  | originGives bytes =>
    simp only [Relay.stepDown] at h
    split_ifs at h with hg
    cases h
    exact .gives bytes hg.1 hg.2.1 hg.2.2
  | originEnds =>
    simp only [Relay.stepDown] at h
    split_ifs at h with hd
    cases h
    exact .ends hd
  | originReadFails text =>
    simp only [Relay.stepDown] at h
    split_ifs at h with hd
    cases h
    exact .fails text hd
  | downSends =>
    simp only [Relay.stepDown] at h
    split at h
    · rename_i ev hd
      split_ifs at h with hq
      cases h
      exact .sends ev hd hq
    · cases h
  | _ => cases h

/-- What the two halves leave to the writer. -/
structure SameWriter (s t : Relay κ) : Prop where
  writer : t.writer = s.writer
  wire : t.wire = s.wire
  tracker : t.tracker = s.tracker
  peerFin : t.peerFin = s.peerFin
  finSent : t.finSent = s.finSent
  finCause : t.finCause = s.finCause

theorem UpStep.sameWriter {s t : Relay κ} {e : Event} (h : UpStep s e t) : SameWriter s t := by
  cases h with
  | reads f rest hu hs =>
    rw [Relay.handle_eq]
    exact ⟨rfl, rfl, rfl, rfl, rfl, rfl⟩
  | _ => exact ⟨rfl, rfl, rfl, rfl, rfl, rfl⟩

theorem DownStep.sameWriter {s t : Relay κ} {e : Event} (h : DownStep s e t) : SameWriter s t := by
  cases h <;> exact ⟨rfl, rfl, rfl, rfl, rfl, rfl⟩

/-- The half from the edge ends the relay by errors of the Origin alone. -/
theorem UpStep.returned {s t : Relay κ} {e : Event} (h : UpStep s e t) : t.returned = s.returned ∨
    (((∃ d, s.up = .dialing d) ∨ ∃ rest, s.up = .writing rest) ∧
      ∃ text, t.returned = some (.error (.other text))) := by
  cases h with
  | reads f rest hu hs =>
    left
    rw [Relay.handle_eq]
  | fails e text hu => exact .inr ⟨hu, text, rfl⟩
  | _ => exact .inl rfl

theorem DownStep.returned {s t : Relay κ} {e : Event} (h : DownStep s e t) : t.returned = s.returned ∨
    ∃ text, e = .originReadFails text ∧ t.returned = some (.error (.other text)) := by
  cases h with
  | fails text hd => exact .inr ⟨text, rfl, rfl⟩
  | _ => exact .inl rfl

section
variable [KeepaliveTracker κ]

open KeepaliveTracker

def Relay.start : Relay κ where
  now := 0
  read := []
  stream := []
  up := .reading
  originW := false
  dial := .pending
  dials := 0
  toOrigin := []
  down := .waiting
  fromOrigin := []
  queue := []
  writer := .selecting none
  wire := []
  tracker := new
  counter := 0
  peerFin := false
  finSent := false
  lastWrite := 0
  lastData := 0
  returned := none
  finCause := none
  keepalives := []
  answered := []

/-- The top of the writer's loop. -/
def Relay.loopTop (s : Relay κ) : Relay κ :=
  if s.finSent && s.peerFin then { s with writer := .closing }
  else { s with writer := .selecting ((oldestOutstandingAgeMs s.tracker s.now).map
    (fun age => s.now + (keepaliveDeadAfter - age))) }

/-- `apply_edge_write` once its write is through. -/
def Relay.apply (s : Relay κ) : EdgeWrite → Relay κ
  | .data payload =>
    { s with wire := s.wire ++ [.data payload], lastWrite := s.now, lastData := s.now }
  | .ack c => { s with wire := s.wire ++ [.keepaliveAck c], lastWrite := s.now }
  | .ackReceived c => { s with tracker := ack s.tracker c }
  | .fin =>
    { s with wire := s.wire ++ [.fin], finSent := true, finCause := some .queued, lastWrite := s.now }
  | .peerFin =>
    { s with
      -- the second one, from the end of the stream, does not start the bound anew
      lastData := if s.peerFin then s.lastData else s.now
      peerFin := true
      tracker := new }

/-- The write of the keepalive is through; it is tracked up to the peer's FIN. -/
def Relay.keptAlive (s : Relay κ) : Relay κ :=
  { s with
    wire := s.wire ++ [.keepalive s.counter]
    tracker := if s.peerFin then s.tracker else sent s.tracker s.counter s.now
    keepalives := s.keepalives ++ [(s.counter, s.now)]
    lastWrite := s.now }

def Relay.idleFinned (s : Relay κ) : Relay κ :=
  { s with
    wire := s.wire ++ [.fin]
    finSent := true
    finCause := some .idleBound
    lastWrite := s.now }

/-- The verdict once the queue is drained. -/
def Relay.judge (s : Relay κ) : Relay κ :=
  match oldestOutstandingAgeMs s.tracker s.now with
  | some age =>
    -- the drain may have brought the ACK, and the age is then that of a later keepalive
    if keepaliveDeadAfter ≤ age then { s with returned := some (.error (.peerDead age)) }
    else s.loopTop
  | none => s.loopTop

/-- Whether a unit of work puts bytes on the wire. -/
def EdgeWrite.writes : EdgeWrite → Bool
  | .data _ => true
  | .ack _ => true
  | .fin => true
  | .ackReceived _ => false
  | .peerFin => false

/-- What an event of the writer does; `idleBound` is `POST_PEER_FIN_IDLE_BOUND`. -/
def Relay.stepWriter (idleBound : ℕ) (s : Relay κ) : Event → Option (Relay κ)
  | .writerReceives =>
    match s.writer, s.queue with
    | .selecting _, ev :: rest => some { s with queue := rest, writer := .applying ev false }
    | _, _ => none
  | .writerFindsClosed =>
    match s.writer, s.queue, s.up, s.down with
    -- `rx.recv()` is `None` once both senders are gone and nothing is queued
    | .selecting _, [], .done, .done => some { s with writer := .closing }
    | _, _, _, _ => none
  | .keepaliveDue =>
    match s.writer with
    | .selecting _ =>
      if s.lastWrite + keepaliveInterval ≤ s.now then
        some { s with counter := s.counter + 1, writer := .keepaliving }
      else none
    | _ => none
  | .idleDue =>
    match s.writer with
    | .selecting _ =>
      -- the guard of the arm; neither FIN changes while the `select!` waits
      if s.peerFin ∧ ¬ s.finSent ∧ s.lastData + idleBound ≤ s.now then
        some { s with writer := .finning }
      else none
    | _ => none
  | .deadlineDue =>
    match s.writer with
    -- the deadline stands since the top of the loop
    | .selecting (some d) => if d ≤ s.now then some { s with writer := .draining } else none
    | _ => none
  | .writes =>
    match s.writer with
    | .applying ev false => some (s.apply ev).loopTop
    | .applying ev true => some { s.apply ev with writer := .draining }
    | .keepaliving => some s.keptAlive.loopTop
    | .finning => some s.idleFinned.loopTop
    | _ => none
  | .writeFails text =>
    match s.writer with
    -- an ACK received and the peer's FIN are noted and not written
    | .applying ev _ => if ev.writes then some (s.fail text) else none
    | .keepaliving => some (s.fail text)
    | .finning => some (s.fail text)
    | _ => none
  | .drains =>
    match s.writer, s.queue with
    | .draining, ev :: rest => some { s with queue := rest, writer := .applying ev true }
    | _, _ => none
  | .judges =>
    match s.writer, s.queue with
    | .draining, [] => some s.judge
    | _, _ => none
  | .shutsDown =>
    match s.writer with
    | .closing => some { s with returned := some (.ok ()) }
    | _ => none
  | .shutdownFails text =>
    match s.writer with
    | .closing => some (s.fail text)
    | _ => none
  | _ => none

/-- One event. The relay is over once it has returned: an error of either half ends it at once. -/
def Relay.step (idleBound : ℕ) (s : Relay κ) (e : Event) : Option (Relay κ) :=
  match s.returned, e with
  | some _, _ => none
  | none, .tick ms => some { s with now := s.now + ms }
  | none, .edgePuts f =>
    if accepts s.put f then some { s with stream := s.stream ++ [f], answered := s.noteAnswer f }
    else none
  | none, e => (s.stepUp e).or ((s.stepDown e).or (s.stepWriter idleBound e))

/-- The steps of the writer. -/
inductive WriterStep (idleBound : ℕ) (s : Relay κ) : Event → Relay κ → Prop
  | receives (deadline ev rest) (hw : s.writer = .selecting deadline) (hq : s.queue = ev :: rest) :
      WriterStep idleBound s .writerReceives { s with queue := rest, writer := .applying ev false }
  | findsClosed (deadline) (hw : s.writer = .selecting deadline) (hq : s.queue = []) (hu : s.up = .done)
      (hd : s.down = .done) : WriterStep idleBound s .writerFindsClosed { s with writer := .closing }
  | keepaliveDue (deadline) (hw : s.writer = .selecting deadline)
      (ht : s.lastWrite + keepaliveInterval ≤ s.now) :
      WriterStep idleBound s .keepaliveDue { s with counter := s.counter + 1, writer := .keepaliving }
  | idleDue (deadline) (hw : s.writer = .selecting deadline) (hp : s.peerFin = true) (hf : s.finSent = false)
      (ht : s.lastData + idleBound ≤ s.now) : WriterStep idleBound s .idleDue { s with writer := .finning }
  | deadlineDue (d) (hw : s.writer = .selecting (some d)) (ht : d ≤ s.now) :
      WriterStep idleBound s .deadlineDue { s with writer := .draining }
  | applies (ev) (hw : s.writer = .applying ev false) : WriterStep idleBound s .writes (s.apply ev).loopTop
  | drained (ev) (hw : s.writer = .applying ev true) :
      WriterStep idleBound s .writes { s.apply ev with writer := .draining }
  | keepsAlive (hw : s.writer = .keepaliving) : WriterStep idleBound s .writes s.keptAlive.loopTop
  | fins (hw : s.writer = .finning) : WriterStep idleBound s .writes s.idleFinned.loopTop
  | fails (text) : WriterStep idleBound s (.writeFails text) (s.fail text)
  | drains (ev rest) (hw : s.writer = .draining) (hq : s.queue = ev :: rest) :
      WriterStep idleBound s .drains { s with queue := rest, writer := .applying ev true }
  | judges (hw : s.writer = .draining) (hq : s.queue = []) : WriterStep idleBound s .judges s.judge
  | shutsDown (hw : s.writer = .closing) :
      WriterStep idleBound s .shutsDown { s with returned := some (.ok ()) }
  | shutdownFails (text) (hw : s.writer = .closing) :
      WriterStep idleBound s (.shutdownFails text) (s.fail text)

theorem Relay.stepWriter_cases {idleBound : ℕ} {s t : Relay κ} {e : Event}
    (h : s.stepWriter idleBound e = some t) : WriterStep idleBound s e t := by
  cases e with
  | writerReceives =>
    simp only [Relay.stepWriter] at h
    split at h
    · rename_i deadline ev rest hw hq
      cases h
      exact .receives deadline ev rest hw hq
    · cases h
  | writerFindsClosed =>
    simp only [Relay.stepWriter] at h
    split at h
    · rename_i deadline hw hq hu hd
      cases h
      exact .findsClosed deadline hw hq hu hd
    · cases h
  | keepaliveDue =>
    simp only [Relay.stepWriter] at h
    split at h
    · rename_i deadline hw
      split_ifs at h with ht
      cases h
      exact .keepaliveDue deadline hw ht
    · cases h
  | idleDue =>
    simp only [Relay.stepWriter] at h
    split at h
    · rename_i deadline hw
      split_ifs at h with hg
      cases h
      exact .idleDue deadline hw hg.1 (Bool.not_eq_true _ ▸ hg.2.1) hg.2.2
    · cases h
  | deadlineDue =>
    simp only [Relay.stepWriter] at h
    split at h
    · rename_i d hw
      split_ifs at h with ht
      cases h
      exact .deadlineDue d hw ht
    · cases h
  | writes =>
    simp only [Relay.stepWriter] at h
    split at h
    · rename_i ev hw
      cases h
      exact .applies ev hw
    · rename_i ev hw
      cases h
      exact .drained ev hw
    · rename_i hw
      cases h
      exact .keepsAlive hw
    · rename_i hw
      cases h
      exact .fins hw
    · cases h
  | writeFails text =>
    simp only [Relay.stepWriter] at h
    split at h
    · split_ifs at h
      cases h
      exact .fails text
    · cases h
      exact .fails text
    · cases h
      exact .fails text
    · cases h
  | drains =>
    simp only [Relay.stepWriter] at h
    split at h
    · rename_i ev rest hw hq
      cases h
      exact .drains ev rest hw hq
    · cases h
  | judges =>
    simp only [Relay.stepWriter] at h
    split at h
    · rename_i hw hq
      cases h
      exact .judges hw hq
    · cases h
  | shutsDown =>
    simp only [Relay.stepWriter] at h
    split at h
    · rename_i hw
      cases h
      exact .shutsDown hw
    · cases h
  | shutdownFails text =>
    simp only [Relay.stepWriter] at h
    split at h
    · rename_i hw
      cases h
      exact .shutdownFails text hw
    · cases h
  | _ => cases h

/-- The loop's top only sets the writer's phase. -/
theorem Relay.loopTop_eq (s : Relay κ) :
    ∃ w, s.loopTop = { s with writer := w } ∧
      ((w = .closing ∧ s.finSent = true ∧ s.peerFin = true) ∨
        ((∃ deadline, w = .selecting deadline) ∧ ¬ (s.finSent = true ∧ s.peerFin = true))) := by
  unfold Relay.loopTop
  split_ifs with h
  · exact ⟨_, rfl, .inl ⟨rfl, by simpa using h⟩⟩
  · exact ⟨_, rfl, .inr ⟨⟨_, rfl⟩, by simpa using h⟩⟩

/-- At the top the writer has nothing in hand. -/
theorem Relay.loopTop_phase (s : Relay κ) : ∃ w, s.loopTop = { s with writer := w } ∧ w.inHand = [] ∧
    w ≠ .keepaliving := by
  obtain ⟨w, hw, ⟨rfl, -⟩ | ⟨⟨deadline, rfl⟩, -⟩⟩ := s.loopTop_eq
  · exact ⟨_, hw, rfl, by simp⟩
  · exact ⟨_, hw, rfl, by simp⟩

/-- The verdict falls on a keepalive that is still outstanding at the age it names. -/
theorem Relay.judge_cases (s : Relay κ) :
    s.judge = s.loopTop ∨ ∃ age, s.judge = { s with returned := some (.error (.peerDead age)) } ∧
      ∃ x ∈ outstanding s.tracker, x.2 + keepaliveDeadAfter ≤ s.now := by
  unfold Relay.judge
  split
  · rename_i age hage
    split_ifs with hdead
    · obtain ⟨x, hx, rfl⟩ := oldest_mem s.tracker s.now age hage
      refine .inr ⟨_, rfl, x, hx, ?_⟩
      simp only [keepaliveDeadAfter] at hdead ⊢
      omega
    · exact .inl rfl
  · exact .inl rfl

/-- What the writer leaves to the two halves. -/
structure SameHalves (s t : Relay κ) : Prop where
  read : t.read = s.read
  stream : t.stream = s.stream
  up : t.up = s.up
  originW : t.originW = s.originW
  dial : t.dial = s.dial
  dials : t.dials = s.dials
  toOrigin : t.toOrigin = s.toOrigin
  down : t.down = s.down
  fromOrigin : t.fromOrigin = s.fromOrigin

omit [KeepaliveTracker κ] in
theorem SameHalves.phase {s t : Relay κ} (h : SameHalves s t) (w : Writer) :
    SameHalves s { t with writer := w } := ⟨h.1, h.2, h.3, h.4, h.5, h.6, h.7, h.8, h.9⟩

theorem SameHalves.loopTop {s t : Relay κ} (h : SameHalves s t) : SameHalves s t.loopTop := by
  obtain ⟨w, hw, -⟩ := t.loopTop_eq
  rw [hw]
  exact h.phase w

theorem Relay.apply_sameHalves (s : Relay κ) (ev : EdgeWrite) : SameHalves s (s.apply ev) := by
  cases ev <;> exact ⟨rfl, rfl, rfl, rfl, rfl, rfl, rfl, rfl, rfl⟩

theorem WriterStep.sameHalves {idleBound : ℕ} {s t : Relay κ} {e : Event}
    (h : WriterStep idleBound s e t) : SameHalves s t := by
  cases h with
  | applies ev hw => exact (s.apply_sameHalves ev).loopTop
  | drained ev hw => exact (s.apply_sameHalves ev).phase .draining
  | keepsAlive hw => exact SameHalves.loopTop ⟨rfl, rfl, rfl, rfl, rfl, rfl, rfl, rfl, rfl⟩
  | fins hw => exact SameHalves.loopTop ⟨rfl, rfl, rfl, rfl, rfl, rfl, rfl, rfl, rfl⟩
  | judges hw hq =>
    rcases s.judge_cases with hj | ⟨age, hj, -⟩
    · rw [hj]
      exact SameHalves.loopTop ⟨rfl, rfl, rfl, rfl, rfl, rfl, rfl, rfl, rfl⟩
    · rw [hj]
      exact ⟨rfl, rfl, rfl, rfl, rfl, rfl, rfl, rfl, rfl⟩
  | _ => exact ⟨rfl, rfl, rfl, rfl, rfl, rfl, rfl, rfl, rfl⟩

/-- A step of the writer does one unit of work, or leaves the work and the peer's FIN as they are. -/
theorem WriterStep.work {idleBound : ℕ} {s t : Relay κ} {e : Event} (h : WriterStep idleBound s e t) :
    (∃ ev drain w, s.writer = .applying ev drain ∧ w.inHand = [] ∧ t = { s.apply ev with writer := w }) ∨
      (t.work = s.work ∧ t.peerFin = s.peerFin) := by
  have htop (u : Relay κ) (hu : u.writer.inHand = []) : u.loopTop.work = u.work ∧
    u.loopTop.peerFin = u.peerFin := by
    obtain ⟨w, hw, hin, -⟩ := u.loopTop_phase
    rw [hw]
    exact ⟨by simp only [Relay.work, hin, hu], rfl⟩
  cases h with
  | applies ev hw =>
    obtain ⟨w, hlt, hin, -⟩ := (s.apply ev).loopTop_phase
    exact .inl ⟨ev, false, w, hw, hin, hlt⟩
  | drained ev hw => exact .inl ⟨ev, true, .draining, hw, rfl, rfl⟩
  | receives deadline ev rest hw hq => exact .inr ⟨by simp [Relay.work, hw, hq, Writer.inHand], rfl⟩
  | drains ev rest hw hq => exact .inr ⟨by simp [Relay.work, hw, hq, Writer.inHand], rfl⟩
  | findsClosed deadline hw hq hu hd => exact .inr ⟨by simp [Relay.work, hw, Writer.inHand], rfl⟩
  | keepaliveDue deadline hw ht => exact .inr ⟨by simp [Relay.work, hw, Writer.inHand], rfl⟩
  | idleDue deadline hw hp hf ht => exact .inr ⟨by simp [Relay.work, hw, Writer.inHand], rfl⟩
  | deadlineDue d hw ht => exact .inr ⟨by simp [Relay.work, hw, Writer.inHand], rfl⟩
  | keepsAlive hw => exact .inr (htop s.keptAlive (by simp [Relay.keptAlive, hw, Writer.inHand]))
  | fins hw => exact .inr (htop s.idleFinned (by simp [Relay.idleFinned, hw, Writer.inHand]))
  | judges hw hq =>
    rcases s.judge_cases with hj | ⟨age, hj, -⟩
    · rw [hj]
      exact .inr (htop s (by simp [hw, Writer.inHand]))
    · rw [hj]
      exact .inr ⟨rfl, rfl⟩
  | fails text => exact .inr ⟨rfl, rfl⟩
  | shutsDown hw => exact .inr ⟨rfl, rfl⟩
  | shutdownFails text hw => exact .inr ⟨rfl, rfl⟩

/-- How a step of the writer ends the relay. -/
theorem WriterStep.returned {idleBound : ℕ} {s t : Relay κ} {e : Event} (h : WriterStep idleBound s e t) :
    t.returned = s.returned ∨
      (∃ text, (e = .writeFails text ∨ e = .shutdownFails text) ∧
        t.returned = some (.error (.other text))) ∨
      (e = .shutsDown ∧ s.writer = .closing ∧ t.returned = some (.ok ())) ∨
      (e = .judges ∧ s.writer = .draining ∧ s.queue = [] ∧ ∃ age, t.returned = some (.error (.peerDead age)) ∧
        ∃ x ∈ outstanding s.tracker, x.2 + keepaliveDeadAfter ≤ s.now) := by
  have htop (u : Relay κ) : u.loopTop.returned = u.returned := by
    obtain ⟨w, hw, -⟩ := u.loopTop_eq
    rw [hw]
  have happly (ev : EdgeWrite) : (s.apply ev).returned = s.returned := by cases ev <;> rfl
  cases h with
  | applies ev hw => exact .inl ((htop _).trans (happly ev))
  | drained ev hw => exact .inl (happly ev)
  | keepsAlive hw => exact .inl (htop _)
  | fins hw => exact .inl (htop _)
  | fails text => exact .inr (.inl ⟨text, .inl rfl, rfl⟩)
  | shutdownFails text hw => exact .inr (.inl ⟨text, .inr rfl, rfl⟩)
  | shutsDown hw => exact .inr (.inr (.inl ⟨rfl, hw, rfl⟩))
  | judges hw hq =>
    rcases s.judge_cases with hj | ⟨age, hj, hx⟩
    · rw [hj]
      exact .inl (htop s)
    · rw [hj]
      exact .inr (.inr (.inr ⟨rfl, hw, hq, age, rfl, hx⟩))
  | _ => exact .inl rfl

/-- A step is the clock's, the edge's, or one of the three parts'. -/
theorem Relay.step_cases {idleBound : ℕ} {s t : Relay κ} {e : Event} (h : s.step idleBound e = some t) :
    s.returned = none ∧
      ((∃ ms, e = .tick ms ∧ t = { s with now := s.now + ms }) ∨
      (∃ f, e = .edgePuts f ∧ accepts s.put f = true ∧
        t = { s with stream := s.stream ++ [f], answered := s.noteAnswer f }) ∨
      UpStep s e t ∨ DownStep s e t ∨ WriterStep idleBound s e t) := by
  unfold Relay.step at h
  split at h
  · cases h
  · rename_i ms hr
    cases h
    exact ⟨hr, .inl ⟨ms, rfl, rfl⟩⟩
  · rename_i f hr
    split_ifs at h with hf
    cases h
    exact ⟨hr, .inr (.inl ⟨f, rfl, hf, rfl⟩)⟩
  · rename_i hr _ _
    refine ⟨hr, .inr (.inr ?_)⟩
    rcases Option.or_eq_some_iff.mp h with h | ⟨-, h⟩
    · exact .inl (Relay.stepUp_cases h)
    · rcases Option.or_eq_some_iff.mp h with h | ⟨-, h⟩
      · exact .inr (.inl (Relay.stepDown_cases h))
      · exact .inr (.inr (Relay.stepWriter_cases h))

end

end

/-- The keepalives sent and not acknowledged, the oldest in front. -/
instance : KeepaliveTracker (List (ℕ × ℕ)) where
  new := []
  sent k c now := k ++ [(c, now)]
  ack k c := k.filter (fun x => x.1 ≠ c)
  oldestOutstandingAgeMs k now := k.head?.map (fun x => now - x.2)
  outstanding := id
  outstanding_new := rfl
  outstanding_sent k c now x hx := by simpa using hx
  outstanding_ack k c x hx := by simpa using hx
  oldest_mem k now age h := by
    cases k with
    | nil => cases h
    | cons x k => exact ⟨x, List.mem_cons_self .., (Option.some.inj h).symm⟩

end CtAgent.Serve.Framed
