import CtAgent.Lib.NetAddr
import CtAgent.Lib.Run
import CtAgent.Serve.Registration

/-! `tcp_connect_register_serve` and the loop of `run_agent_tcp_fallback_worker` (serve.rs). -/
namespace CtAgent.Serve

open CtAgent.Lib

inductive OriginProto
  | tcp
  | udp
  deriving DecidableEq, Repr

/-- The fields of `AgentConfig` that decide how a stream is served. -/
structure AgentConfig where
  browserForward : Bool
  /-- the bytes of `CT_AGENT_HOSTNAME` -/
  hostname : Option (List UInt8)
  framedFallback : Bool
  fallback443 : Bool
  originProto : OriginProto
  directAdvertiseIp : Option IpAddr
  directRequireToken : Bool
  deriving DecidableEq, Repr

structure FallbackCtx where
  config : AgentConfig
  token : List UInt8
  /-- `terminator.is_some()` -/
  terminator : Bool
  deriving DecidableEq, Repr

/-- The relay that serves a registration. -/
inductive Relay
  | framedDuplexToOrigin
  | duplexToOrigin
  | noiseStream
  | noiseUdp
  deriving DecidableEq, Repr

/-- What one attempt meets: a dial for the connection each role's frame goes out on, the answer to a
frame, and how the park phase and the relay end (`some` is an error, so long after the
registration). -/
structure Answers where
  dial : Role → Option String
  reply : List UInt8 → Reply
  park : Option ℕ
  relay : Relay → Option ℕ

/-- How the registration part of an attempt fails: at a dial, or by the verdict that counts. -/
inductive RegisterEnd
  | dial (text : String)
  | final (e : RegisterError)
  deriving DecidableEq, Repr

/-- `role` on a connection of its own; a failed registration goes on to `next`. -/
def registerOrElse (A : Answers) (register : Role → Except RegisterError Unit) (role : Role)
    (next : RegisterError → Except RegisterEnd Role) : Except RegisterEnd Role :=
  match A.dial role with
  | some text => .error (.dial text)
  | none =>
    match register role with
    | .ok () => .ok role
    | .error e => next e

/-- `F` then `L` then `B` for a browser agent with a hostname, `K` then `A` for any other. `F` is left
out where a terminator has to see the stream. -/
def registerRole (ctx : FallbackCtx) (A : Answers) : Except RegisterEnd Role :=
  match ctx.config.browserForward, ctx.config.hostname with
  | true, some host =>
    let register := registerTunnelStreamBrowserWithRole A.reply ctx.token host
    let pingCapable := registerOrElse A register .L (fun _ =>
      registerOrElse A register .B (fun e => .error (.final e)))
    -- `F` is tried first, and each role the edge turns down costs a connection
    if ctx.config.framedFallback && !ctx.terminator then
      registerOrElse A register .F (fun _ => pingCapable)
    else pingCapable
  | _, _ =>
    let register := registerTunnelStreamWithRole A.reply ctx.token
    registerOrElse A register .K (fun _ =>
      registerOrElse A register .A (fun e => .error (.final e)))

/-- The roles whose park phase is PINGs up to STOP. -/
def Role.pingCapable : Role → Bool
  | .K => true
  | .F => true
  | .L => true
  | .A => false
  | .B => false

/-- The relay behind a registration. -/
def relayOf (ctx : FallbackCtx) : Role → Relay
  | .F => .framedDuplexToOrigin
  | .L => .duplexToOrigin
  | .B => .duplexToOrigin
  | .K | .A =>
    match ctx.config.originProto with
    | .tcp => .noiseStream
    | .udp => .noiseUdp

inductive TcpServed
  | consumed
  | plain
  deriving DecidableEq, Repr

inductive TcpAttemptEnd
  | notRegistered (err : RegisterError)
  | registered (parkedFor : ℕ) (consumed : Bool)
  deriving DecidableEq, Repr

/-- What a worker feeds: the view through its tracker, and the pool through its `ConsumedSignal`. Each
noted outcome is kept with the flag as it left it. -/
structure Feed where
  tracker : RevocationTracker := {}
  view : RevocationView := {}
  noted : List (RegistrationOutcome × Bool) := []
  fired : ℕ := 0
  deriving DecidableEq, Repr

def Feed.note (F : Feed) (o : RegistrationOutcome) : Feed :=
  let r := F.tracker.apply F.view o
  { F with tracker := r.1, view := r.2.1, noted := F.noted ++ [(o, r.2.1.revoked)] }

def Feed.fire (F : Feed) : Feed := { F with fired := F.fired + 1 }

/-- The part behind the registration: the park phase, STOP, the relay. -/
def serveRole (ctx : FallbackCtx) (A : Answers) (F : Feed) (role : Role) :
    Feed × Except TcpAttemptEnd TcpServed :=
  -- `B` has no park phase of its own: the relay's first read is where it waits
  match if role = .B then none else A.park with
  | some d => (F, .error (.registered d false))
  | none =>
    let F := if role.pingCapable then F.fire else F
    match A.relay (relayOf ctx role) with
    | some d => (F, .error (.registered d role.pingCapable))
    | none => (F, .ok (if role.pingCapable then .consumed else .plain))

def tcpConnectRegisterServe (ctx : FallbackCtx) (A : Answers) (F : Feed) :
    Feed × Except TcpAttemptEnd TcpServed :=
  match registerRole ctx A with
  -- a dial that fails is not classified: the edge has not seen the token
  | .error (.dial text) => (F, .error (.notRegistered (.other text)))
  | .error (.final e) => (F.note (classifyFailure e false), .error (.notRegistered e))
  | .ok role => serveRole ctx A (F.note .succeeded) role

def shortRegistration : ℕ := 2 * 10^9

def shortRegistrationStrikes : ℕ := 3

/-- How the walk over the rungs of one round ends. -/
inductive WalkEnd
  /-- the worker's Client is done -/
  | finished
  | served
  | parkedEnded (parkedFor : ℕ)
  | allFailed (lastErr : Option RegisterError)
  deriving DecidableEq, Repr

/-- `for addr in &rungs`. -/
def walkRungs (ctx : FallbackCtx) (answers : SocketAddr → Answers) :
    List SocketAddr → Feed → Option RegisterError → Feed × WalkEnd
  | [], F, lastErr => (F, .allFailed lastErr)
  | addr :: rest, F, _lastErr =>
    match tcpConnectRegisterServe ctx (answers addr) F with
    | (F, .ok .consumed) => (F, .finished)
    | (F, .ok .plain) => (F, .served)
    | (F, .error (.registered _ true)) => (F, .finished)
    | (F, .error (.registered d false)) => (F, .parkedEnded d)
    -- the only end that goes on to the next rung
    | (F, .error (.notRegistered e)) => walkRungs ctx answers rest F (some e)

inductive WorkerEnd
  | ok
  | gaveUp
  deriving DecidableEq, Repr

structure Worker where
  feed : Feed
  backoff : Backoff
  shortLived : ℕ := 0
  returned : Option WorkerEnd := none
  deriving DecidableEq, Repr

/-- One turn of the worker's loop meets the address the edge resolved to, and what each rung answers. -/
structure Round where
  edge : SocketAddr
  answers : SocketAddr → Answers

/-- Sleeping, or giving up where the budget is spent. -/
def Worker.backOff (W : Worker) : Worker :=
  match W.backoff.nextDelay with
  | some (_, b) => { W with backoff := b }
  | none => { W with returned := some .gaveUp }

/-- The end of a turn. -/
def Worker.settle (W : Worker) : WalkEnd → Worker
  -- a consumed registration ends the worker: the pool has spawned its successor
  | .finished => { W with returned := some .ok }
  | .served => { W with backoff := W.backoff.reset, shortLived := 0 }
  | .parkedEnded parkedFor =>
    if shortRegistration ≤ parkedFor then { W with backoff := W.backoff.reset, shortLived := 0 }
    else
      -- only the strikes in a row back off
      let W := { W with shortLived := W.shortLived + 1 }
      if W.shortLived < shortRegistrationStrikes then W else W.backOff
  | .allFailed _ => W.backOff

/-- One turn of the loop of `run_agent_tcp_fallback_worker`. -/
def Worker.step (ctx : FallbackCtx) (W : Worker) (r : Round) : Option Worker :=
  match W.returned with
  | some _ => none
  | none =>
    let (F, e) := walkRungs ctx r.answers (tcpRungs r.edge ctx.config.fallback443) W.feed none
    some (Worker.settle { W with feed := F } e)

/-- A worker as `spawn_one` starts it: a tracker of its own over the view as it then is. -/
def Worker.start (base max attempts : ℕ) (view : RevocationView) : Worker :=
  { feed := { view := view }, backoff := { base := base, max := max, maxAttempts := attempts } }

/-- Whether an attempt was consumed: STOP had come. -/
def wasConsumed : Except TcpAttemptEnd TcpServed → Bool
  | .ok .consumed => true
  | .error (.registered _ consumed) => consumed
  | _ => false

@[simp] theorem Feed.note_fired (F : Feed) (o : RegistrationOutcome) : (F.note o).fired = F.fired := rfl

@[simp] theorem Feed.fire_fired (F : Feed) : F.fire.fired = F.fired + 1 := rfl

theorem serveRole_fired (ctx : FallbackCtx) (A : Answers) (F : Feed) (role : Role) :
    (serveRole ctx A F role).1.fired =
      F.fired + (wasConsumed (serveRole ctx A F role).2).toNat := by
  unfold serveRole
  split
  · rfl
  · cases A.relay (relayOf ctx role) <;> cases role.pingCapable <;> rfl

theorem connect_fired (ctx : FallbackCtx) (A : Answers) (F : Feed) :
    (tcpConnectRegisterServe ctx A F).1.fired =
      F.fired + (wasConsumed (tcpConnectRegisterServe ctx A F).2).toNat := by
  unfold tcpConnectRegisterServe
  split
  · rfl
  · rfl
  · rw [serveRole_fired, Feed.note_fired]

theorem walkRungs_fired (ctx : FallbackCtx) (answers : SocketAddr → Answers) (rungs : List SocketAddr)
    (F : Feed) (lastErr : Option RegisterError) :
    (walkRungs ctx answers rungs F lastErr).1.fired =
      F.fired + (decide ((walkRungs ctx answers rungs F lastErr).2 = .finished)).toNat := by
  induction rungs generalizing F lastErr with
  | nil => rfl
  | cons addr rest ih =>
    have hc := connect_fired ctx (answers addr) F
    unfold walkRungs
    split <;> rename_i heq <;> rw [heq] at hc
    · exact hc
    · exact hc
    · exact hc
    · exact hc
    · rw [ih]
      exact congrArg (· + _) hc

theorem Worker.backOff_not_ok (W : Worker) (h : W.returned = none) : W.backOff.returned ≠ some .ok := by
  unfold Worker.backOff
  split <;> simp [h]

theorem Worker.settle_ok (W : Worker) (h : W.returned = none) (e : WalkEnd) :
    (W.settle e).returned = some .ok ↔ e = .finished := by
  cases e with
  | finished => simp [Worker.settle]
  | served => simp [Worker.settle, h]
  | parkedEnded d =>
    simp only [Worker.settle, reduceCtorEq, iff_false]
    split_ifs
    · simp [h]
    · simp [h]
    · exact Worker.backOff_not_ok _ h
  | allFailed e => simp [Worker.settle, Worker.backOff_not_ok W h]

theorem Worker.step_returned {ctx : FallbackCtx} {W W' : Worker} {r : Round}
    (h : W.step ctx r = some W') : W.returned = none := by
  unfold Worker.step at h
  split at h
  · simp at h
  · assumption

theorem Worker.backOff_feed (W : Worker) : W.backOff.feed = W.feed := by
  unfold Worker.backOff
  split <;> rfl

theorem Worker.settle_feed (W : Worker) (e : WalkEnd) : (W.settle e).feed = W.feed := by
  cases e with
  | finished => rfl
  | served => rfl
  | parkedEnded d =>
    simp only [Worker.settle]
    split_ifs
    · rfl
    · rfl
    · exact Worker.backOff_feed _
  | allFailed e => exact Worker.backOff_feed W

/-- A worker fires its signal once, in the turn in which it ends `Ok`. -/
theorem worker_fires_before_ok {ctx : FallbackCtx} {base max attempts : ℕ} {view : RevocationView}
    {rounds : List Round} {W : Worker}
    (h : run (Worker.step ctx) (Worker.start base max attempts view) rounds = some W) :
    W.feed.fired = (decide (W.returned = some .ok)).toNat := by
  apply run_invariant (Worker.step ctx)
    (fun W => W.feed.fired = (decide (W.returned = some .ok)).toNat) _ rounds _ W rfl h
  intro V r V' hV hs
  have hret := Worker.step_returned hs
  have hwalk := walkRungs_fired ctx r.answers (tcpRungs r.edge ctx.config.fallback443) V.feed none
  simp only [Worker.step, hret, Option.some.injEq] at hs
  subst hs
  have hok : (decide ((none : Option WorkerEnd) = some .ok)).toNat = 0 := rfl
  rw [Worker.settle_feed, hwalk, hV, hret, hok, Nat.zero_add]
  apply congrArg Bool.toNat
  rw [decide_eq_decide]
  exact (Worker.settle_ok _ rfl _).symm

end CtAgent.Serve
