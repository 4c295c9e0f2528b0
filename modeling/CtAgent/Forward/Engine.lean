import Mathlib.Data.List.AList
import CtAgent.Forward.Pump

/-! The two forward engines. A turn of an engine's `select!` is one step; an engine that waits for
room in the queue of a stream without credit does nothing else until there is. The engine's tasks
and its writer run beside it. The writer polls its two queues one after the other, and what others
queue in between counts for the second poll only, so the two polls are two steps; and it may poll
between the FC_ON and the Open that an engine queues for one connection, so these are two steps too. -/
namespace CtAgent.Forward
open CtAgent.Lib

def ctrlBacklogCap : ℕ := 4096
def maxPendingFc : ℕ := 1024

/-- `flushAt` says whether the acknowledgement timer is set. -/
structure SessionRecv where
  on : Bool
  unacked : ℕ
  flushAt : Bool
  window : ℕ
  deriving DecidableEq, Repr

namespace SessionRecv

def granting (window : ℕ) : SessionRecv := ⟨false, 0, false, window⟩

def flush (r : SessionRecv) : Option Frame × SessionRecv :=
  (if 0 < r.unacked then some (swindowFrame (UInt32.ofNat r.unacked)) else none,
    { r with flushAt := false, unacked := 0 })

def received (bytes : ℕ) (r : SessionRecv) : Option Frame × SessionRecv :=
  if !r.on || bytes == 0 then (none, r)
  else
    let r := { r with unacked := r.unacked + bytes }
    if r.window / 4 ≤ r.unacked then r.flush
    -- what is too little for an ACK of its own waits for the flush timer
    else (none, { r with flushAt := true })

end SessionRecv

/-- Why an engine ended its session. -/
inductive EndReason where
  | windowBelowMinimum
  | acknowledgedMore
  | controlFlood
  | openInUse (id : UInt32)
  | backlog
  | readFailed
  | deadPeer
  | writeSideEnded
  deriving DecidableEq, Repr

inductive ResetReason where
  | exceededCredit
  | creditBeyondWindow
  deriving DecidableEq, Repr

/-- The initiate engine asks for `target`; the accept engine asks its policy gate. -/
inductive Side where
  | initiate (target : String)
  | accept (acceptForwardRequest : String → Except String Unit)

structure EngineConfig where
  side : Side
  maxStreams : ℕ
  fcEnabled : Bool
  window : ℕ

/-- The state of one engine, its tasks and its writer. A task's number is its place in `tasks`; an
entry of `entries` is the number of the task whose queue and credit it shares. `accepting` to
`opening` are the initiate engine's, `opened` is the accept engine's. `opening` is the stream whose
FC_ON is queued and whose Open is the engine's next action, `blocked` is the message the engine waits
to hand over, `ctrlEmpty` says the writer has just found the control queue empty, and `resets` are
the streams that were reset for a violation. -/
structure Engine where
  entries : AList (fun _ : UInt32 => ℕ)
  running : AList (fun _ : UInt32 => ℕ)
  pendingFc : Finset UInt32
  tasks : List Task
  session : Option (SessionWindow ℕ)
  recv : SessionRecv
  accepting : Bool
  helloDeadline : Bool
  stopping : Bool
  peerSpeaksFc : Bool
  nextId : UInt32
  opening : Option UInt32
  opened : Bool
  ctrl : List Frame
  out : List Frame
  ctrlEmpty : Bool
  writerGone : Bool
  blocked : Option (ℕ × StreamIn)
  ended : Option EndReason
  resets : List (UInt32 × ResetReason)

inductive EngineEvent where
  | sessionUp
  | helloWait
  | stop
  | connection
  | sendOpen
  | frame (f : Frame)
  | readError
  | unblock
  | join (tid : ℕ)
  | flush
  | dead
  | writerEnded
  | pollCtrl
  | pollOut
  | writeError
  | pump (tid : ℕ) (e : PumpEvent)
  deriving DecidableEq, Repr

namespace Engine

def init (cfg : EngineConfig) : Engine where
  entries := ∅
  running := ∅
  pendingFc := ∅
  tasks := []
  session := none
  recv := .granting cfg.window
  accepting := !cfg.fcEnabled
  helloDeadline := false
  stopping := false
  peerSpeaksFc := false
  nextId := 1
  opening := none
  opened := false
  ctrl := if cfg.fcEnabled then [helloFrame (UInt32.ofNat cfg.window)] else []
  out := []
  ctrlEmpty := false
  writerGone := false
  blocked := none
  ended := none
  resets := []

def endWith (why : EndReason) (s : Engine) : Engine := { s with ended := some why }

/-- Queue a control frame; a backlog at its cap ends the session. -/
def ctrlSend (f : Frame) (s : Engine) : Engine :=
  if s.ended.isSome then s
  else if s.writerGone ∨ ctrlBacklogCap ≤ s.ctrl.length then s.endWith .backlog
  else { s with ctrl := s.ctrl ++ [f] }

def modifyTask (tid : ℕ) (f : Task → Task) (s : Engine) : Engine :=
  { s with tasks := s.tasks.modify tid f }

/-- Messages for a task that ended are dropped. -/
def pushIn (msg : StreamIn) (t : Task) : Task :=
  if t.ended then t else { t with inbound := t.inbound ++ [msg] }

def hasRoom (t : Task) : Bool := t.credited || t.ended || decide (t.inbound.length < channelCap)

/-- Hand a message to a task; without flow control that may wait. -/
def notify (tid : ℕ) (msg : StreamIn) (s : Engine) : Engine :=
  if (s.tasks[tid]?).all hasRoom then s.modifyTask tid (pushIn msg)
  else { s with blocked := some (tid, msg) }

def exceedsCredit (payload : Bytes) (t : Task) : Bool :=
  t.credited && decide (fcWindow < t.pending + payload.length)

def countPending (payload : Bytes) (t : Task) : Task :=
  if t.credited then { t with pending := t.pending + payload.length } else t

/-- `false` when the peer exceeded its credit. -/
def deliver (tid : ℕ) (payload : Bytes) (s : Engine) : Bool × Engine :=
  if (s.tasks[tid]?).any (exceedsCredit payload) then (false, s)
  else (true, (s.modifyTask tid (countPending payload)).notify tid (.data payload))

def closeCredit (t : Task) : Task := { t with creditOpen := false }

/-- Take the entry of a stream out and stop its sends. -/
def removeEntry (id : UInt32) (tid : ℕ) (s : Engine) : Engine :=
  { s with entries := s.entries.erase id }.modifyTask tid closeCredit

/-- The entry of a stream, if there is one, is taken out and its pump told to stop. -/
def abortEntry (id : UInt32) (s : Engine) : Engine :=
  match s.entries.lookup id with
  | some tid => (s.removeEntry id tid).notify tid .aborted
  | none => s

/-- A stream that broke the protocol is reset and the peer told. -/
def reset (id : UInt32) (why : ResetReason) (s : Engine) : Engine :=
  ({ s with resets := s.resets ++ [(id, why)] }.abortEntry id).ctrlSend (abortFrame id)

/-- Keep what the receive side of the session window came to, and send its acknowledgement. -/
def sendAck (ack : Option Frame × SessionRecv) (s : Engine) : Engine :=
  match ack.1 with
  | some f => { s with recv := ack.2 }.ctrlSend f
  | none => { s with recv := ack.2 }

/-- Stream data is acknowledged on receipt, whatever happens to it next. -/
def onData (id : UInt32) (payload : Bytes) (s : Engine) : Engine :=
  let s := s.sendAck (s.recv.received payload.length)
  if s.ended.isSome then s
  else
    match s.entries.lookup id with
    | none => s
    | some tid =>
      match s.deliver tid payload with
      | (true, s) => s
      -- the peer sent past its credit: a violation of this stream alone
      | (false, s) => s.reset id .exceededCredit

def onClose (id : UInt32) (reason : Option String) (s : Engine) : Engine :=
  -- an FC_ON whose stream never opened goes with its Close
  let s := { s with pendingFc := s.pendingFc.erase id }
  match streamInForClose reason with
  | .aborted => s.abortEntry id
  | msg =>
    match s.entries.lookup id with
    | some tid => s.notify tid msg
    | none => s

inductive ControlOutcome where
  | none
  | hello (window : Option UInt32)
  | swindow (bytes : UInt32)
  | resetStream (id : UInt32)
  | endSession
  deriving DecidableEq, Repr

def addCredit (bytes : ℕ) (t : Task) : Task := { t with credit := t.credit.addPermits bytes }

def applyControl (payload : Bytes) (s : Engine) : ControlOutcome × Engine :=
  match parseControl payload with
  | some (.hello window) => (.hello window, s)
  | some (.swindow bytes) => (.swindow bytes, s)
  | some (.window id bytes) =>
    match s.entries.lookup id with
    | none => (.none, s)
    | some tid =>
      match s.tasks[tid]? with
      | none => (.none, s)
      | some t =>
        if t.credited then
          -- more than was spent would lift the window above its start
          if fcWindow - t.credit.free < bytes.toNat then (.resetStream id, s)
          else (.none, s.modifyTask tid (addCredit bytes.toNat))
        else (.none, s)
  | some (.fcOn id) =>
    if maxPendingFc ≤ s.pendingFc.card then (.endSession, s)
    else (.none, { s with pendingFc := insert id s.pendingFc })
  | none => (.none, s)

/-- The session window a HELLO grants; below the minimum it ends the session. -/
def grantWindow (window : Option UInt32) (s : Engine) : Engine :=
  match SessionSend.fromHello (window.getD 0) with
  | .ok none => { s with session := none }
  | .ok (some w) => { s with session := some ⟨w, []⟩ }
  -- below four chunks: a violation, which ends the session
  | .error () => s.endWith .windowBelowMinimum

/-- A HELLO at the initiate engine: its window counts only before the first stream. -/
def initiateHello (window : Option UInt32) (s : Engine) : Engine :=
  let s := if s.accepting then s else s.grantWindow window
  if s.ended.isSome then s
  else { s with recv := { s.recv with on := window.isSome }, peerSpeaksFc := true, accepting := true }

def acceptHello (window : Option UInt32) (s : Engine) : Engine :=
  let s := { s with recv := { s.recv with on := window.isSome } }
  if s.opened then s else s.grantWindow window

def onSWindow (bytes : ℕ) (s : Engine) : Engine :=
  match s.session with
  | none => s
  | some w =>
    if (w.send.acknowledge bytes).1 then { s with session := some (w.acknowledge bytes) }
    else s.endWith .acknowledgedMore

def onControl (cfg : EngineConfig) (payload : Bytes) (s : Engine) : Engine :=
  if cfg.fcEnabled then
    match s.applyControl payload with
    | (.none, s) => s
    | (.hello window, s) =>
      match cfg.side with
      | .initiate _ => s.initiateHello window
      | .accept _ => s.acceptHello window
    | (.swindow bytes, s) => s.onSWindow bytes.toNat
    | (.resetStream id, s) => s.reset id .creditBeyondWindow
    | (.endSession, s) => s.endWith .controlFlood
  else s

/-- Add a task under an id, with its entry. -/
def spawn (t : Task) (s : Engine) : Engine :=
  { s with entries := s.entries.insert t.id s.tasks.length,
           running := s.running.insert t.id s.tasks.length,
           tasks := s.tasks ++ [t] }

def maxStreamsReached : String := "CT_CHANNEL_FORWARD_MAX_STREAMS reached"

/-- An Open at the accept engine. -/
def onOpen (cfg : EngineConfig) (gate : String → Except String Unit) (id : UInt32) (target : String)
    (s : Engine) : Engine :=
  -- an id is in use until its task is joined
  if id = controlId ∨ id ∈ s.entries ∨ id ∈ s.running then s.endWith (.openInUse id)
  else
    let credited := decide (id ∈ s.pendingFc)
    -- FC_ON came in front of the Open it is for
    let s := { s with pendingFc := s.pendingFc.erase id, opened := true }
    if cfg.maxStreams ≤ s.running.keys.length then s.ctrlSend (.close id (some maxStreamsReached))
    else
      match gate target with
      | .error reason => s.ctrlSend (.close id (some reason))
      | .ok () => s.spawn (.new id credited s.session.isSome .dialing)

def onFrame (cfg : EngineConfig) (s : Engine) : Frame → Engine
  | .data id payload => if id = controlId then s.onControl cfg payload else s.onData id payload
  | .close id reason => s.onClose id reason
  | .open id target =>
    match cfg.side with
    | .initiate _ => s
    | .accept gate => s.onOpen cfg gate id target

/-- The id behind `id`; 0 is the control stream. -/
def bump (id : UInt32) : UInt32 := max (id + 1) 1

/-- The first id from `id` on whose task does not run. -/
def freeId (running : AList (fun _ : UInt32 => ℕ)) : (fuel : ℕ) → UInt32 → Option UInt32
  | 0, _ => none
  | n + 1, id => if id ∈ running then freeId running n (bump id) else some id

/-- A local connection at the initiate engine. One too many, or one while the process stops, is
closed. A stream with credit is announced first. -/
def onConnection (cfg : EngineConfig) (target : String) (s : Engine) : Option Engine :=
  if s.stopping then some s
  else if !s.accepting then none
  -- the connection is closed and nothing is sent
  else if cfg.maxStreams ≤ s.running.keys.length then some s
  else
    match freeId s.running (s.running.keys.length + 1) s.nextId with
    | none => none
    | some id =>
      let s := { s with nextId := bump id }
      if s.peerSpeaksFc then
        let q := s.ctrlSend (fcOnFrame id)
        -- a control queue that overflowed has ended the session
        if q.ended.isSome then some q else some { q with opening := some id }
      else some (s.spawn (.new id false false (.spawned target)))

/-- The Open of the stream just announced, and its pump. -/
def onSendOpen (target : String) (s : Engine) : Option Engine :=
  match s.opening with
  | none => none
  | some id =>
    let q := s.ctrlSend (.open id target)
    if q.ended.isSome then some q
    else some ({ q with opening := none }.spawn (.new id true s.session.isSome .pumping))

def markJoined (t : Task) : Task := { t with phase := .joined }

/-- A finished task is taken out of `running`, and its entry with it. -/
def onJoin (tid : ℕ) (s : Engine) : Option Engine :=
  match s.tasks[tid]? with
  | none => none
  | some t =>
    if t.phase = .finished then
      let s := s.modifyTask tid markJoined
      -- the id may run again by now: only this task's entry goes
      match s.running.entries.find? (fun e => e.2 = tid) with
      | none => some s
      | some e =>
        let s := { s with running := s.running.erase e.1 }
        match s.entries.lookup e.1 with
        | none => some s
        | some tid' => some (s.removeEntry e.1 tid')
    else none

def onFlush (s : Engine) : Engine := s.sendAck s.recv.flush

/-- The message the engine waits with found room, or its task ended. -/
def onUnblock (s : Engine) : Option Engine :=
  match s.blocked with
  | none => none
  | some (tid, msg) =>
    if (s.tasks[tid]?).all hasRoom then some ({ s with blocked := none }.modifyTask tid (pushIn msg))
    else none

def outbound (s : Engine) : Outbound :=
  if s.writerGone then .closed else if s.out.length < channelCap then .room else .full

def orphan (tid : ℕ) (s : Engine) : Bool :=
  s.entries.entries.all (fun e => e.2 ≠ tid) && (s.blocked.all (fun b => b.1 ≠ tid))

/-- A pump leaves the window: its waiting take is cancelled, the chunk it holds is dropped. -/
def leaveWindow (tid : ℕ) (w : SessionWindow ℕ) : SessionWindow ℕ :=
  ((w.cancel tid).drop tid).getD (w.cancel tid)

def useWindow (tid : ℕ) (use : WindowUse) (session : Option (SessionWindow ℕ)) :
    Option (Option (SessionWindow ℕ)) :=
  match use, session with
  | .none, session => some session
  | .leave, session => some (session.map (leaveWindow tid))
  | _, none => none
  | .take firstChunk bytes ready, some w =>
    if w.send.waits tid = false ∧ w.holds tid = none ∧
        ((w.take tid firstChunk bytes).holds tid).isSome = ready then
      some (some (w.take tid firstChunk bytes))
    else none
  | .poll, some w => (w.poll tid).map some
  | .queued, some w => (w.queued tid).map some

def onPump (tid : ℕ) (e : PumpEvent) (s : Engine) : Option Engine :=
  match s.tasks[tid]? with
  | none => none
  | some t =>
    match t.step s.outbound (s.orphan tid) e with
    | none => none
    | some m =>
      match useWindow tid m.window s.session with
      | none => none
      | some session =>
        some { s with tasks := s.tasks.set tid m.task, out := s.out ++ m.frames, session := session }

/-- The turns of the `select!` loop itself. -/
def turn (cfg : EngineConfig) (s : Engine) : EngineEvent → Option Engine
  | .sessionUp => if !s.accepting && !s.helloDeadline then some { s with helloDeadline := true } else none
  | .helloWait => if !s.accepting && s.helloDeadline then some { s with accepting := true } else none
  | .stop => if s.stopping then none else some { s with stopping := true }
  | .connection =>
    match cfg.side with
    | .initiate target => s.onConnection cfg target
    | .accept _ => none
  | .sendOpen =>
    match cfg.side with
    | .initiate target => s.onSendOpen target
    | .accept _ => none
  | .frame f => some (s.onFrame cfg f)
  | .readError => some (s.endWith .readFailed)
  | .join tid => s.onJoin tid
  | .flush => if s.recv.flushAt then some s.onFlush else none
  | .dead =>
    match s.session with
    | some w => if 0 < w.send.unacknowledged then some (s.endWith .deadPeer) else none
    | none => none
  | .writerEnded => if s.writerGone then some (s.endWith .writeSideEnded) else none
  | _ => none

/-- One step, and what the writer put on the wire in it. Nothing runs once the engine has ended: its
tasks are aborted with it. -/
def step (cfg : EngineConfig) (s : Engine) (e : EngineEvent) : Option (Engine × List Frame) :=
  if s.ended.isSome then none
  else
    match e with
    | .pollCtrl =>
      if s.writerGone then none
      else
        match s.ctrl with
        | [] => some ({ s with ctrlEmpty := true }, [])
        | f :: ctrl => some ({ s with ctrl := ctrl, ctrlEmpty := false }, [f])
    | .pollOut =>
      -- biased: the streams' queue is polled once the control queue was found empty
      if s.writerGone ∨ s.ctrlEmpty = false then none
      else
        match s.out with
        | [] => some ({ s with ctrlEmpty := false }, [])
        | f :: out => some ({ s with out := out, ctrlEmpty := false }, [f])
    | .writeError => some ({ s with writerGone := true }, [])
    | .unblock => s.onUnblock.map (·, [])
    | .pump tid e => (s.onPump tid e).map (·, [])
    -- a delivery that waits for room holds the whole loop, but not the writer and the tasks; behind an
    -- FC_ON the loop goes on with the Open
    | e =>
      if s.blocked.isSome ∨ (s.opening.isSome ∧ e ≠ .sendOpen) then none
      else (s.turn cfg e).map (·, [])

/-- The step without its output: the engine against a peer that may send anything. -/
def next (cfg : EngineConfig) (s : Engine) (e : EngineEvent) : Option Engine := (s.step cfg e).map Prod.fst

end Engine

end CtAgent.Forward
