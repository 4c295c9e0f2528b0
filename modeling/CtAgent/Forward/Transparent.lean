import CtAgent.Forward.Honest
import CtAgent.Forward.LaneBytes

/-! The two engines carry the bytes of every stream, as long as no frame overtakes the Open of its
stream. -/
namespace CtAgent.Forward
open CtAgent.Lib

namespace Engine

/-- All bytes the pump of a stream has read from its socket. -/
def readOf (i : UInt32) (s : Engine) : Bytes := ((s.stream i).map Task.read).getD []

/-- Every pump of `rcv` wrote the beginning of what the pump of the same stream read at `snd`, and one
that shut its socket because the peer closed the stream wrote all of it, behind which that pump reads
nothing more. -/
def Carried (snd rcv : Engine) : Prop :=
  ∀ t ∈ rcv.tasks, t.written <+: snd.readOf t.id ∧
    (t.shut = true → t.written = snd.readOf t.id ∧ ∀ u, snd.stream t.id = some u → u.sending = false)

end Engine

namespace Pair
variable {cfg : PairConfig} {s s' : Pair}

end Pair

end CtAgent.Forward
