import CtAgent.Forward.SessionWindow

/-! `pump_forward_stream` and the task around it, one stream of one engine. Every access to
something shared (the socket, a queue, the credit, the session window) is a step of its own; the
idle timer may fire at any step. The task of an initiate engine opens the stream first when it runs
without credit, the task of an accept engine dials first. -/
namespace CtAgent.Forward
open CtAgent.Lib

def channelCap : ℕ := 64
def fcWindow : ℕ := 256 * 1024

/-- What the engine hands a pump. -/
inductive StreamIn where
  | data (payload : Bytes)
  | closed
  | aborted
  deriving DecidableEq, Repr

def StreamIn.len : StreamIn → ℕ
  | .data payload => payload.length
  | _ => 0

def streamInForClose (reason : Option String) : StreamIn :=
  if reason.isSome then .aborted else .closed

/-- Where a task is. `opening`, `refusing` and `idling` wait for room for their frame. -/
inductive Phase where
  | spawned (target : String)
  | opening (target : String)
  | dialing
  | refusing (why : String)
  | pumping
  | idling
  | finished
  | joined
  deriving DecidableEq, Repr

/-- The half from the socket to the peer. A chunk waits for credit, then for the session window,
then for room in the engine's queue. -/
inductive Up where
  | reading
  | credit (chunk : Bytes)
  | window (chunk : Bytes)
  | room (chunk : Bytes)
  | closing
  | resetting
  | done
  deriving DecidableEq, Repr

/-- The half from the peer to the socket; `rest` is what `write_all` has not written yet. -/
inductive Down where
  | receiving
  | writing (payload rest : Bytes)
  | reporting
  | resetting
  | done
  deriving DecidableEq, Repr

/-- A stream's task with the two things it shares with its `StreamEntry`: the inbound queue with
the `pending` count, and the credit. `read` and `written` are all bytes so far of the local socket,
`shut`: its write side was shut down because the peer closed the stream. -/
structure Task where
  id : UInt32
  credited : Bool
  session : Bool
  phase : Phase
  up : Up
  down : Down
  firstChunk : Bool
  inbound : List StreamIn
  pending : ℕ
  credit : Semaphore Unit
  creditOpen : Bool
  unreported : ℕ
  read : Bytes
  written : Bytes
  shut : Bool
  deriving DecidableEq, Repr

/-- The engine's queue as a pump finds it. -/
inductive Outbound where
  | room | full | closed
  deriving DecidableEq, Repr

/-- What a step asks of the session window; `ready` is what the first poll of a take came to. -/
inductive WindowUse where
  | none
  | take (firstChunk : Bool) (bytes : ℕ) (ready : Bool)
  | poll
  | queued
  | leave
  deriving DecidableEq, Repr

structure PumpMove where
  task : Task
  frames : List Frame
  window : WindowUse
  deriving DecidableEq, Repr

inductive PumpEvent where
  | start
  | dialed
  | dialFailed (why : String)
  | sent
  | gaveUp
  | read (chunk : Bytes)
  | eof
  | readError
  | credit
  | take (ready : Bool)
  | poll
  | queue
  | upSent
  | upGaveUp
  | recv
  | write (n : ℕ)
  | writeError
  | downSent
  | downGaveUp
  | idle
  | complete
  | panic
  deriving DecidableEq, Repr

namespace Task

def new (id : UInt32) (credited session : Bool) (phase : Phase) : Task where
  id := id
  credited := credited
  session := session
  phase := phase
  up := .reading
  down := .receiving
  firstChunk := true
  inbound := []
  pending := 0
  credit := .new (if credited then fcWindow else 0)
  creditOpen := true
  unreported := 0
  read := []
  written := []
  shut := false

def ended (t : Task) : Bool :=
  match t.phase with
  | .finished | .joined => true
  | _ => false

/-- The end of a task: both halves are dropped with what they hold. -/
def finish (t : Task) : Task :=
  { t with phase := .finished, up := .done, down := .done, inbound := [], credit := t.credit.cancel () }

def stop (t : Task) (frames : List Frame) : PumpMove := ⟨t.finish, frames, .leave⟩

def goto (t : Task) (frames : List Frame) : PumpMove := ⟨t, frames, .none⟩

/-- The first try of `send_or_drop`: `waiting` when the queue is full. -/
def sendOrDrop (t : Task) (o : Outbound) (f : Frame) (sent : List Frame → PumpMove)
    (waiting : Task) : PumpMove :=
  match o with
  | .room => sent [f]
  | .full => waiting.goto []
  | .closed => t.stop []

/-- A later poll of `send_or_drop` that found room, or the queue closed. -/
def sendLater (t : Task) (o : Outbound) (f : Frame) (sent : List Frame → PumpMove) : Option PumpMove :=
  match o with
  | .room => some (sent [f])
  | .full => none
  | .closed => some (t.stop [])

/-- A chunk was read: the first poll of the credit's acquire. -/
def offer (chunk : Bytes) (t : Task) : PumpMove :=
  let t := { t with read := t.read ++ chunk }
  if t.credited then
    if t.creditOpen then
      match t.credit.acquire () chunk.length with
      | (true, c) =>
        { t with credit := c, up := if t.session then .window chunk else .room chunk }.goto []
      | (false, c) => { t with credit := c, up := .credit chunk }.goto []
    else t.stop []
  else { t with up := if t.session then .window chunk else .room chunk }.goto []

def upStep (o : Outbound) (t : Task) : PumpEvent → Option PumpMove
  | .read chunk =>
    if t.up = .reading ∧ 1 ≤ chunk.length ∧ chunk.length ≤ dataChunkLen then some (t.offer chunk)
    else none
  | .eof =>
    if t.up = .reading then
      some (t.sendOrDrop o (.close t.id none) { t with up := .done }.goto { t with up := .closing })
    else none
  | .readError =>
    if t.up = .reading then some (t.sendOrDrop o (abortFrame t.id) t.stop { t with up := .resetting })
    else none
  | .credit =>
    match t.up with
    | .credit chunk =>
      if t.creditOpen then
        match t.credit.complete () with
        | some (_, c) =>
          some ({ t with credit := c, up := if t.session then .window chunk else .room chunk }.goto [])
        | none => none
      else some (t.stop [])
    | _ => none
  | .take ready =>
    match t.up with
    | .window chunk =>
      some ⟨if ready then { t with up := .room chunk, firstChunk := false } else t, [],
        .take t.firstChunk chunk.length ready⟩
    | _ => none
  | .poll =>
    match t.up with
    | .window chunk => some ⟨{ t with up := .room chunk, firstChunk := false }, [], .poll⟩
    | _ => none
  | .queue =>
    match t.up, o with
    | .room chunk, .room =>
      some ⟨{ t with up := .reading }, [.data t.id chunk], if t.session then .queued else .none⟩
    | .room _, .closed => some (t.stop [])
    | _, _ => none
  | .upSent =>
    match t.up with
    | .closing => t.sendLater o (.close t.id none) { t with up := .done }.goto
    | .resetting => t.sendLater o (abortFrame t.id) t.stop
    | _ => none
  | .upGaveUp =>
    match t.up with
    | .closing => some (t.stop [])
    | .resetting => some (t.stop [])
    | _ => none
  | _ => none

/-- The payload is on the socket: what was written is reported at half a window. -/
def consumed (o : Outbound) (payload : Bytes) (t : Task) : PumpMove :=
  let t := { t with down := .receiving }
  if t.credited then
    let t := { t with unreported := t.unreported + payload.length }
    if fcWindow / 2 ≤ t.unreported then
      t.sendOrDrop o (windowFrame t.id (UInt32.ofNat t.unreported)) { t with unreported := 0 }.goto
        { t with down := .reporting }
    else t.goto []
  else t.goto []

/-- `orphan`: nobody sends to the inbound queue any more. -/
def downStep (o : Outbound) (orphan : Bool) (t : Task) : PumpEvent → Option PumpMove
  | .recv =>
    if t.down = .receiving then
      match t.inbound with
      | .data payload :: inbound =>
        some ({ t with inbound := inbound,
                       pending := if t.credited then t.pending - payload.length else t.pending,
                       down := .writing payload payload }.goto [])
      | .closed :: inbound => some ({ t with inbound := inbound, down := .done, shut := true }.goto [])
      | .aborted :: _ => some (t.stop [])
      | [] => if orphan then some ({ t with down := .done }.goto []) else none
    else none
  | .write n =>
    match t.down with
    | .writing payload rest =>
      if n ≤ rest.length ∧ (rest = [] ∨ 1 ≤ n) then
        let t := { t with written := t.written ++ rest.take n }
        if n = rest.length then some (t.consumed o payload)
        else some ({ t with down := .writing payload (rest.drop n) }.goto [])
      else none
    | _ => none
  | .writeError =>
    match t.down with
    | .writing _ _ => some (t.sendOrDrop o (abortFrame t.id) t.stop { t with down := .resetting })
    | _ => none
  | .downSent =>
    match t.down with
    | .reporting =>
      t.sendLater o (windowFrame t.id (UInt32.ofNat t.unreported))
        { t with unreported := 0, down := .receiving }.goto
    | .resetting => t.sendLater o (abortFrame t.id) t.stop
    | _ => none
  | .downGaveUp =>
    match t.down with
    | .reporting => some (t.stop [])
    | .resetting => some (t.stop [])
    | _ => none
  | _ => none

def idleFrame (id : UInt32) : Frame := .close id (some "idle timeout")

def dialFailedFrame (id : UInt32) (why : String) : Frame := .close id (some s!"dial failed: {why}")

def pumpStep (o : Outbound) (orphan : Bool) (t : Task) : PumpEvent → Option PumpMove
  | .idle => some (t.sendOrDrop o (idleFrame t.id) t.stop { t with phase := .idling })
  | .complete => if t.up = .done ∧ t.down = .done then some (t.stop []) else none
  | e =>
    match t.upStep o e with
    | some m => some m
    | none => t.downStep o orphan e

def step (o : Outbound) (orphan : Bool) (t : Task) (e : PumpEvent) : Option PumpMove :=
  match t.phase, e with
  | .finished, _ => none
  | .joined, _ => none
  | _, .panic => some (t.stop [])
  | .spawned target, .start =>
    some (t.sendOrDrop o (.open t.id target) { t with phase := .pumping }.goto
      { t with phase := .opening target })
  | .opening target, .sent => t.sendLater o (.open t.id target) { t with phase := .pumping }.goto
  | .opening _, .gaveUp => some (t.stop [])
  | .dialing, .dialed => some ({ t with phase := .pumping }.goto [])
  | .dialing, .dialFailed why =>
    some (t.sendOrDrop o (dialFailedFrame t.id why) t.stop { t with phase := .refusing why })
  | .refusing why, .sent => t.sendLater o (dialFailedFrame t.id why) t.stop
  | .refusing _, .gaveUp => some (t.stop [])
  | .idling, .sent => t.sendLater o (idleFrame t.id) t.stop
  | .idling, .gaveUp => some (t.stop [])
  | .pumping, e => t.pumpStep o orphan e
  | _, _ => none

end Task

end CtAgent.Forward
