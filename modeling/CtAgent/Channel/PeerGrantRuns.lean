import CtAgent.Lib.Run
import CtAgent.Channel.PeerGrant

/-! Runs of one gate: any calls in any order, with any answers of what they poll. The history says
which bytes went where. -/
namespace CtAgent.Channel
open CtAgent.Lib

/-- `recorded`: another gate of the session writes its end into the shared record. -/
inductive GateCall where
  | read (env : GateEnv) (remaining : ℕ)
  | write (env : GateEnv) (data : Bytes)
  | shutdown
  | recorded (e : GrantEnd)
  deriving DecidableEq, Repr

inductive GateStep (γ : Type*) where
  | read (r : ReadStep)
  | write (data : Bytes) (w : WriteStep γ)
  | shutdown (inner : Bool)
  | recorded (e : GrantEnd)
  deriving DecidableEq, Repr

namespace GateStep
variable {γ : Type*}

/-- Bytes the session read, the own prelude included. -/
def sent : GateStep γ → Bytes
  | .read (.prelude bytes) => bytes
  | .read (.inner (.ready bytes)) => bytes
  | _ => []

/-- Bytes the inner stream handed out. -/
def produced : GateStep γ → Bytes
  | .read (.inner (.ready bytes)) => bytes
  | _ => []

/-- Bytes of the peer that a write took. -/
def accepted : GateStep γ → Bytes
  | .write data (.collected n) => data.take n
  | .write data (.verified n _ _ _) => data.take n
  | .write _ (.inner data (.ready n)) => data.take n
  | _ => []

/-- Bytes the inner stream took. -/
def received : GateStep γ → Bytes
  | .write _ (.inner data (.ready n)) => data.take n
  | _ => []

/-- The inner stream was asked for bytes, or given some. -/
def passes : GateStep γ → Bool
  | .read (.inner _) => true
  | .write _ (.inner _ _) => true
  | _ => false

end GateStep

structure GateRun (γ : Type*) where
  gate : PeerGrantGate γ
  history : List (GateStep γ)
  deriving DecidableEq, Repr

namespace GateRun
variable {γ : Type*} (codec : GrantCodec γ)

def init (check : PeerGrantCheck γ) (ownExpiresAt : Option ℕ) (record : Option (Option GrantEnd)) :
    GateRun γ :=
  ⟨PeerGrantGate.build codec (some check) ownExpiresAt record, []⟩

def step (s : GateRun γ) : GateCall → Option (GateRun γ)
  | .read env remaining =>
    let (r, p) := s.gate.pollRead env remaining
    some ⟨p, s.history ++ [.read r]⟩
  | .write env data =>
    let (w, p) := s.gate.pollWrite codec env data
    some ⟨p, s.history ++ [.write data w]⟩
  | .shutdown =>
    let (inner, p) := s.gate.pollShutdown
    some ⟨p, s.history ++ [.shutdown inner]⟩
  | .recorded e =>
    some ⟨⟨s.gate.gate, s.gate.life.recordEnd e⟩, s.history ++ [.recorded e]⟩

def sent (s : GateRun γ) : Bytes := s.history.flatMap GateStep.sent
def produced (s : GateRun γ) : Bytes := s.history.flatMap GateStep.produced
def accepted (s : GateRun γ) : Bytes := s.history.flatMap GateStep.accepted
def received (s : GateRun γ) : Bytes := s.history.flatMap GateStep.received

end GateRun

section
variable {γ : Type*} {codec : GrantCodec γ}

/-- The gate after a read of `n` bytes of the own prelude. -/
def Gate.advance (n : ℕ) (g : Gate γ) : Gate γ :=
  { g.armDeadline with outPos := g.outPos + n }

/-- The gate after `n` bytes of the peer's prelude. -/
def Gate.collect (bytes : Bytes) (g : Gate γ) : Gate γ :=
  { g.armDeadline with peer := g.peer ++ bytes }

/-- Everything a call can do to the gate, with what it returned. -/
inductive GateMove (codec : GrantCodec γ) (p p' : PeerGrantGate γ) : GateStep γ → Prop
  | eof (hg : p'.gate = p.gate) (he : p'.life.ended.isSome = true) : GateMove codec p p' (.read .eof)
  | endedWrite (data : Bytes) (error : String) (hg : p'.gate = p.gate)
      (he : p'.life.ended.isSome = true) : GateMove codec p p' (.write data (.denied error))
  | openRead (a : Poll Bytes) (ha : p.life.ended = none) (hg : p.gate = none)
      (hg' : p'.gate = none) : GateMove codec p p' (.read (.inner a))
  | prelude (g : Gate γ) (n : ℕ) (hg : p.gate = some g) (hpos : g.outPos < g.out.length)
      (hn : n ≤ g.out.length - g.outPos) (ha : p.life.ended = none)
      (hg' : p'.gate = if (g.advance n).done then none else some (g.advance n)) :
      GateMove codec p p' (.read (.prelude ((g.out.drop g.outPos).take n)))
  | failedRead (g : Gate γ) (why error : String) (hg : p.gate = some g)
      (hf : g.failed = some why) (hg' : p'.gate = some g.armDeadline) :
      GateMove codec p p' (.read (.denied error))
  | verifiedRead (g : Gate γ) (a : Poll Bytes) (ha : p.life.ended = none) (hg : p.gate = some g)
      (hpos : g.out.length ≤ g.outPos) (hv : g.verified = true) (hf : g.failed = none)
      (hg' : p'.gate = none) : GateMove codec p p' (.read (.inner a))
  | timeout (g : Gate γ) (why error : String) (hg : p.gate = some g) (hv : g.verified = false)
      (hf : g.failed = none) (hg' : p'.gate = some (g.armDeadline.fail why)) :
      GateMove codec p p' (.read (.denied error))
  | wait (g : Gate γ) (hg : p.gate = some g) (hf : g.failed = none) (ha : p.life.ended = none)
      (hg' : p'.gate = some g.armDeadline) : GateMove codec p p' (.read .pending)
  | openWrite (data : Bytes) (a : Poll ℕ) (ha : p.life.ended = none) (hg : p.gate = none)
      (hg' : p'.gate = none) : GateMove codec p p' (.write data (.inner data a))
  | failedWrite (g : Gate γ) (data : Bytes) (why error : String) (hg : p.gate = some g)
      (hf : g.failed = some why) (hg' : p'.gate = some g) :
      GateMove codec p p' (.write data (.denied error))
  | passWrite (g : Gate γ) (data : Bytes) (a : Poll ℕ) (ha : p.life.ended = none)
      (hg : p.gate = some g) (hv : g.verified = true) (hf : g.failed = none)
      (hg' : p'.gate = some g) : GateMove codec p p' (.write data (.inner data a))
  | collect (g : Gate γ) (data : Bytes) (n : ℕ) (ha : p.life.ended = none) (hg : p.gate = some g)
      (hv : g.verified = false) (hf : g.failed = none)
      (hn : n = min data.length (preludeLen codec - g.peer.length))
      (hlen : (g.peer ++ data.take n).length ≠ preludeLen codec)
      (hg' : p'.gate = some (g.collect (data.take n))) :
      GateMove codec p p' (.write data (.collected n))
  | verify (g : Gate γ) (data : Bytes) (n now : ℕ) (peer : γ) (ha : p.life.ended = none)
      (hg : p.gate = some g) (hv : g.verified = false) (hf : g.failed = none)
      (hlen : (g.peer ++ data.take n).length = preludeLen codec)
      (hok : g.check.verify codec (g.peer ++ data.take n) now = .ok peer)
      (hg' : p'.gate = if ({ g.collect (data.take n) with verified := true }).done then none
        else some { g.collect (data.take n) with verified := true }) :
      GateMove codec p p' (.write data (.verified n (g.peer ++ data.take n) now peer))
  | refuse (g : Gate γ) (data bytes : Bytes) (why error : String) (hg : p.gate = some g)
      (hv : g.verified = false) (hf : g.failed = none)
      (hg' : p'.gate = some ((g.collect bytes).fail why)) :
      GateMove codec p p' (.write data (.denied error))
  | closed (g : Gate γ) (why : String) (hg : p.gate = some g) (hv : g.verified = false)
      (hf : g.failed = none) (hg' : p'.gate = some (g.fail why)) :
      GateMove codec p p' (.shutdown false)
  | shutdown (hg : p'.gate = p.gate) : GateMove codec p p' (.shutdown true)
  | recorded (e : GrantEnd) (hg : p'.gate = p.gate) : GateMove codec p p' (.recorded e)

theorem pollEnded_ended (env : GateEnv) (life : GrantLifetime) :
    ((life.pollEnded env).1 = true → (life.pollEnded env).2.ended.isSome = true) ∧
      ((life.pollEnded env).1 = false → life.ended = none) := by
  unfold GrantLifetime.pollEnded
  split
  · rename_i h
    simp [h]
  · rename_i h
    have hn : life.ended = none := by simpa using h
    split
    · simp [GrantLifetime.endWith]
    · split
      · simp [GrantLifetime.endWith]
      · simp [GrantLifetime.endWith]
      · split <;> simp [GrantLifetime.endWith, hn]

theorem pollRead_move (env : GateEnv) (remaining : ℕ) (p : PeerGrantGate γ) :
    GateMove codec p (p.pollRead env remaining).2 (.read (p.pollRead env remaining).1) := by
  obtain ⟨hend, hlive⟩ := pollEnded_ended env p.life
  unfold PeerGrantGate.pollRead
  split
  · rename_i life hl
    rw [hl] at hend
    exact .eof rfl (hend rfl)
  · rename_i life hl
    rw [hl] at hlive
    have ha := hlive rfl
    split
    · rename_i hg
      exact .openRead _ ha hg rfl
    · rename_i g hg
      dsimp only
      split
      · rename_i hpos
        exact .prelude g _ hg hpos (Nat.min_le_right _ _) ha rfl
      · rename_i hpos
        split
        · rename_i why hf
          exact .failedRead g why _ hg hf rfl
        · rename_i hf
          split
          · rename_i hv
            exact .verifiedRead g _ ha hg (Nat.le_of_not_lt hpos) hv hf rfl
          · rename_i hv
            split
            · exact .timeout g _ _ hg (by simpa [Gate.armDeadline] using hv) hf rfl
            · exact .wait g hg hf ha rfl

theorem pollWrite_move (env : GateEnv) (data : Bytes) (p : PeerGrantGate γ) :
    GateMove codec p (p.pollWrite codec env data).2 (.write data (p.pollWrite codec env data).1) := by
  obtain ⟨hend, hlive⟩ := pollEnded_ended env p.life
  unfold PeerGrantGate.pollWrite
  split
  · rename_i life hl
    rw [hl] at hend
    exact .endedWrite data _ rfl (hend rfl)
  · rename_i life hl
    rw [hl] at hlive
    have ha := hlive rfl
    split
    · rename_i hg
      exact .openWrite data _ ha hg rfl
    · rename_i g hg
      split
      · rename_i why hf
        exact .failedWrite g data why _ hg hf rfl
      · rename_i hf
        split
        · rename_i hv
          exact .passWrite g data _ ha hg hv hf rfl
        · rename_i hv
          have hv : g.verified = false := by simpa using hv
          dsimp only
          split
          · rename_i hlen
            split
            · rename_i peer hok
              exact .verify g data _ _ peer ha hg hv hf hlen hok rfl
            · rename_i why hok
              exact .refuse g data _ why _ hg hv hf rfl
          · rename_i hlen
            exact .collect g data _ ha hg hv hf rfl hlen rfl

theorem pollShutdown_move (p : PeerGrantGate γ) :
    GateMove codec p p.pollShutdown.2 (.shutdown p.pollShutdown.1) := by
  unfold PeerGrantGate.pollShutdown
  split
  · rename_i g hg
    split
    · rename_i h
      rw [Bool.and_eq_true, Bool.not_eq_true', Option.isNone_iff_eq_none] at h
      exact .closed g _ hg h.1 h.2 rfl
    · exact .shutdown rfl
  · exact .shutdown rfl

theorem gate_step {s s' : GateRun γ} {c : GateCall} (h : s.step codec c = some s') :
    ∃ st, s'.history = s.history ++ [st] ∧ GateMove codec s.gate s'.gate st := by
  cases c with
  | read env remaining =>
    cases h
    exact ⟨_, rfl, pollRead_move env remaining s.gate⟩
  | write env data =>
    cases h
    exact ⟨_, rfl, pollWrite_move env data s.gate⟩
  | shutdown =>
    cases h
    exact ⟨_, rfl, pollShutdown_move s.gate⟩
  | recorded e =>
    cases h
    exact ⟨_, rfl, .recorded e rfl⟩

end

end CtAgent.Channel
