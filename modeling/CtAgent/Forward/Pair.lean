import CtAgent.Forward.EngineShape

/-! An initiate engine and an accept engine connected by two FIFO frame channels, and one stream of
the two together. -/
namespace CtAgent.Forward
open CtAgent.Lib

def ValidWindow (window : ℕ) : Prop :=
  window = 0 ∨ (sessionWindowMin ≤ window ∧ window ≤ sessionWindowMax)

/-- The settings of the two members; each grants a window the other may not refuse. -/
structure PairConfig where
  target : String
  acceptForwardRequest : String → Except String Unit
  maxStreams : ℕ × ℕ
  fcEnabled : Bool × Bool
  window : ℕ × ℕ
  valid : ValidWindow window.1 ∧ ValidWindow window.2

namespace PairConfig

def a (cfg : PairConfig) : EngineConfig :=
  ⟨.initiate cfg.target, cfg.maxStreams.1, cfg.fcEnabled.1, cfg.window.1⟩

def b (cfg : PairConfig) : EngineConfig :=
  ⟨.accept cfg.acceptForwardRequest, cfg.maxStreams.2, cfg.fcEnabled.2, cfg.window.2⟩

end PairConfig

/-- `a` initiates, `b` accepts; `ab` and `ba` are the frames on their way. -/
structure Pair where
  a : Engine
  b : Engine
  ab : List Frame
  ba : List Frame

inductive PairEvent where
  | a (e : EngineEvent)
  | b (e : EngineEvent)
  deriving DecidableEq, Repr

/-- A frame that is read is the first one of the channel. -/
def EngineEvent.takeFrom (wire : List Frame) : EngineEvent → Option (List Frame)
  | .frame f =>
    match wire with
    | [] => none
    | g :: wire => if f = g then some wire else none
  | _ => some wire

namespace Pair

def init (cfg : PairConfig) : Pair := ⟨.init cfg.a, .init cfg.b, [], []⟩

def step (cfg : PairConfig) (s : Pair) : PairEvent → Option Pair
  | .a e =>
    match e.takeFrom s.ba with
    | none => none
    | some ba => (s.a.step cfg.a e).map (fun r => ⟨r.1, s.b, s.ab ++ r.2, ba⟩)
  | .b e =>
    match e.takeFrom s.ab with
    | none => none
    | some ab => (s.b.step cfg.b e).map (fun r => ⟨s.a, r.1, ab, s.ba ++ r.2⟩)

end Pair

/-- A writer that takes a frame from the pumps' queue does not leave the Open of its stream behind
in the control queue. -/
def Engine.inOrder (s : Engine) : EngineEvent → Bool
  | .pollOut =>
    match s.out with
    | f :: _ => !f.overtakes s.ctrl
    | [] => true
  | _ => true

def Pair.inOrder (s : Pair) : PairEvent → Bool
  | .a e => s.a.inOrder e
  | .b e => s.b.inOrder e

theorem takeFrom_eq {e : EngineEvent} {wire rest : List Frame} (h : e.takeFrom wire = some rest) :
    wire = e.input ++ rest := by
  unfold EngineEvent.takeFrom at h
  split at h
  · split at h
    · cases h
    · split at h
      · rename_i he
        cases h
        rw [he]
        rfl
      · cases h
  · rename_i hf
    cases h
    cases e with
    | frame f => exact absurd rfl (hf f)
    | _ => rfl

namespace Pair
variable {cfg : PairConfig} {s s' : Pair} {order : Bool}

/-- A step of the pair is a step of one engine that reads from one channel and writes to the
other. -/
theorem step_a {e : EngineEvent} (h : s.step cfg (.a e) = some s') :
    ∃ w, s.a.step cfg.a e = some (s'.a, w) ∧ s.ba = e.input ++ s'.ba ∧ s'.ab = s.ab ++ w ∧ s'.b = s.b := by
  simp only [step] at h
  split at h
  · cases h
  · rename_i ba hba
    rw [Option.map_eq_some_iff] at h
    obtain ⟨⟨x, w⟩, hx, rfl⟩ := h
    exact ⟨w, hx, takeFrom_eq hba, rfl, rfl⟩

theorem step_b {e : EngineEvent} (h : s.step cfg (.b e) = some s') :
    ∃ w, s.b.step cfg.b e = some (s'.b, w) ∧ s.ab = e.input ++ s'.ab ∧ s'.ba = s.ba ++ w ∧ s'.a = s.a := by
  simp only [step] at h
  split at h
  · cases h
  · rename_i ab hab
    rw [Option.map_eq_some_iff] at h
    obtain ⟨⟨x, w⟩, hx, rfl⟩ := h
    exact ⟨w, hx, takeFrom_eq hab, rfl, rfl⟩

end Pair

/-- One stream of a pair: at both engines and on both channels. -/
structure Lane where
  a : View
  b : View
  ab : List Frame
  ba : List Frame

def Pair.lane (i : UInt32) (s : Pair) : Lane :=
  ⟨s.a.view i, s.b.view i, s.ab.filter (Frame.about i), s.ba.filter (Frame.about i)⟩

/-- A step of one side of a stream. -/
structure LaneStepA (order : Bool) (i : UInt32) (l l' : Lane) (inp w : List Frame) : Prop where
  step : ViewStep order true i l.a inp l'.a w
  ba : l.ba = inp ++ l'.ba
  ab : l'.ab = l.ab ++ w
  b : l'.b = l.b

structure LaneStepB (order : Bool) (i : UInt32) (l l' : Lane) (inp w : List Frame) : Prop where
  step : ViewStep order false i l.b inp l'.b w
  ab : l.ab = inp ++ l'.ab
  ba : l'.ba = l.ba ++ w
  a : l'.a = l.a

end CtAgent.Forward
