import CtAgent.Forward.LaneWhole
import CtAgent.Forward.Transparent

/-! No window leaks between two engines: once nothing is queued or on its way, the session window is whole
again, and every stream that goes on has more than half of its credit. -/
namespace CtAgent.Forward
open CtAgent.Lib

namespace Credit
variable {n : ℕ} {s : Semaphore Unit}

end Credit

namespace Task
variable {t u : Task}

/-- All that came in is on the socket. -/
def Wrote (u : Task) : Prop := u.pending = 0 ∧ ∀ payload rest, u.down ≠ .writing payload rest

theorem Wrote.owed (h : u.Wrote) : u.owed = u.unreported := by
  have hw : u.down.inWriting = 0 := by
    cases hd : u.down with
    | writing payload rest => exact absurd hd (h.2 payload rest)
    | _ => rfl
  simp [Task.owed, h.1, hw]

end Task

/-- Nothing is queued at the engine. -/
def Engine.Drained (s : Engine) : Prop := s.ctrl = [] ∧ s.out = []

instance (s : Engine) : Decidable s.Drained := inferInstanceAs (Decidable (_ ∧ _))

/-- Nothing is queued and nothing is on its way. -/
structure Pair.Quiet (s : Pair) : Prop where
  a : s.a.Drained
  b : s.b.Drained
  ab : s.ab = []
  ba : s.ba = []

instance (s : Pair) : Decidable s.Quiet :=
  decidable_of_iff (s.a.Drained ∧ s.b.Drained ∧ s.ab = [] ∧ s.ba = [])
    ⟨fun h => ⟨h.1, h.2.1, h.2.2.1, h.2.2.2⟩, fun h => ⟨h.a, h.b, h.ab, h.ba⟩⟩

section
variable {cfg : EngineConfig} {grant : ℕ} {snd rcv : Engine} {i : UInt32}

end

/-- What is kept of one stream in a run in which no frame overtakes the Open of its stream. -/
structure Lane.Steady (i : UInt32) (l : Lane) : Prop where
  carries : l.Carries i
  whole : l.Whole i
  fairA : l.a.Fair i
  fairB : l.b.Fair i
  wireA : ∀ f ∈ l.ab, f.dataFor i ≤ dataChunkLen
  wireB : ∀ f ∈ l.ba, f.dataFor i ≤ dataChunkLen

namespace Lane
variable {i : UInt32} {l l' : Lane} {inp w : List Frame}

theorem Steady.stepA (h : l.Steady i) (hs : LaneStepA true i l l' inp w) (hl : l.Sound i)
    (hi : i ≠ controlId) :
    l'.Steady i := by
  have hwire := h.wireB
  rw [hs.ba] at hwire
  obtain ⟨hfair, hw⟩ := h.fairA.step hs.step hi fun f hf => hwire f (List.mem_append_left _ hf)
  refine ⟨h.carries.stepA hs hl.opens hi hl.idA, h.whole.stepA hs hl hi, hfair, ?_, fun f hf => ?_,
    fun f hf => hwire f (List.mem_append_right _ hf)⟩
  · rw [hs.b]
    exact h.fairB
  · rw [hs.ab] at hf
    rcases List.mem_append.mp hf with hf | hf
    · exact h.wireA f hf
    · exact hw f hf

theorem Steady.stepB (h : l.Steady i) (hs : LaneStepB true i l l' inp w) (hl : l.Sound i)
    (hi : i ≠ controlId) :
    l'.Steady i := by
  have hwire := h.wireA
  rw [hs.ab] at hwire
  obtain ⟨hfair, hw⟩ := h.fairB.step hs.step hi fun f hf => hwire f (List.mem_append_left _ hf)
  refine ⟨h.carries.stepB hs hl.opens hi hl.idB, h.whole.stepB hs hl hi, ?_, hfair,
    fun f hf => hwire f (List.mem_append_right _ hf), fun f hf => ?_⟩
  · rw [hs.a]
    exact h.fairA
  · rw [hs.ba] at hf
    rcases List.mem_append.mp hf with hf | hf
    · exact h.wireB f hf
    · exact hw f hf

end Lane

namespace Pair
variable {cfg : PairConfig} {s s' : Pair} {i : UInt32}

theorem Inv.sound (h : s.Inv cfg) (hc : (s.lane i).Carries i) (hi : i ≠ controlId) : (s.lane i).Sound i where
  opens := h.opens i
  countedA := Engine.view_counted h.ab.tables i
  countedB := Engine.view_counted h.ba.tables i
  idA _ ht := Engine.view_id ht
  idB _ ht := Engine.view_id ht
  fitsA := h.creditA i hi
  fitsB := h.creditB i hi
  lead := hc.lead

end Pair

end CtAgent.Forward
